import SchemaRpc.Bytes

namespace SchemaRpc

structure Pipe where
  limit : Nat
  bytes : Bytes
  isOpen : Bool
deriving DecidableEq, Repr, Inhabited

namespace Pipe

def defaultLimit : Nat := 1024 * 1024

def empty (limit : Nat) : Pipe :=
  ⟨limit, [], true⟩

def room (p : Pipe) : Nat :=
  p.limit - p.bytes.length

def write (p : Pipe) (data : Bytes) : Pipe × Bytes :=
  ({ p with bytes := p.bytes ++ data.take p.room }, data.drop p.room)

def read (p : Pipe) (n : Nat) : Pipe × Bytes :=
  ({ p with bytes := p.bytes.drop n }, p.bytes.take n)

def readSize : Nat := 64 * 1024

def pieces (size : Nat) (data : Bytes) : List Bytes :=
  if _h : size = 0 ∨ data = [] then []
  else data.take size :: pieces size (data.drop size)
termination_by data.length
decreasing_by
  have : data.length ≠ 0 := by
    simp only [not_or] at _h
    simpa using _h.2
  rw [List.length_drop]
  omega

theorem flatten_pieces {size : Nat} (h : size ≠ 0) (data : Bytes) :
    (pieces size data).flatten = data := by
  fun_induction pieces size data with
  | case1 data hd => simp [hd.resolve_left h]
  | case2 data _ ih => rw [List.flatten_cons, ih, List.take_append_drop]

def hangUp (p : Pipe) : Pipe :=
  { p with bytes := [], isOpen := false }

theorem bytes_write (p : Pipe) (data : Bytes) :
    (p.write data).1.bytes ++ (p.write data).2 = p.bytes ++ data := by
  simp [write]

theorem length_write_le {p : Pipe} (h : p.bytes.length ≤ p.limit) (data : Bytes) :
    (p.write data).1.bytes.length ≤ p.limit := by
  simp only [write, room, List.length_append, List.length_take]
  omega

theorem bytes_read (p : Pipe) (n : Nat) : (p.read n).2 ++ (p.read n).1.bytes = p.bytes := by
  simp [read]

end Pipe

end SchemaRpc
