import SchemaRpc.Proofs.Message.Conformance
import SchemaRpc.Proofs.Message.Failures

namespace SchemaRpc

section Runs

variable {α β σ : Type} {clash other : Prop} {strict lenient : Except Error α}

def Conflicted (r : Except Error α) : Prop :=
  ∃ message group, r = .error (.groupConflict message group)

structure Detects (clash : Prop) (strict lenient : Except Error α) : Prop where
  conflicted : clash → Conflicted strict
  same : ¬clash → strict = lenient
  calm : ¬Conflicted lenient

theorem not_conflicted_ok (a : α) : ¬Conflicted (.ok a : Except Error α) := by
  rintro ⟨message, group, ⟨⟩⟩

theorem not_conflicted_error {e : Error} (h : e.OfData) : ¬Conflicted (.error e : Except Error α) := by
  rintro ⟨message, group, ⟨⟩⟩
  exact h

theorem Conflicted.bind {r : Except Error α} (h : Conflicted r) (f : α → Except Error β) :
    Conflicted (r >>= f) := by
  obtain ⟨message, group, rfl⟩ := h
  exact ⟨message, group, rfl⟩

theorem conflicted_of_isOk (h : strict = lenient ∨ Conflicted strict) (hs : strict.isOk = false)
    (hl : lenient.isOk = true) : Conflicted strict := by
  refine h.resolve_left fun he => ?_
  rw [he, hl] at hs
  cases hs

namespace Detects

theorem none {r : Except Error α} (h : ¬Conflicted r) : Detects False r r where
  conflicted := False.elim
  same := fun _ => rfl
  calm := h

theorem of_imp (h : Detects clash strict lenient) (imp : clash → other)
    (seen : other → Conflicted strict) : Detects other strict lenient where
  conflicted := seen
  same := fun hn => h.same fun hc => hn (imp hc)
  calm := h.calm

theorem congr (h : Detects clash strict lenient) (he : clash ↔ other) :
    Detects other strict lenient :=
  h.of_imp he.1 fun ho => h.conflicted (he.2 ho)

theorem eq_or (h : Detects clash strict lenient) : strict = lenient ∨ Conflicted strict := by
  by_cases hc : clash
  · exact .inr (h.conflicted hc)
  · exact .inl (h.same hc)

theorem conflicted_iff (h : Detects clash strict lenient) : Conflicted strict ↔ clash := by
  refine ⟨fun hs => Classical.byContradiction fun hc => ?_, h.conflicted⟩
  rw [h.same hc] at hs
  exact h.calm hs

theorem bind {after : α → Prop} {f g : α → Except Error β} (h : Detects clash strict lenient)
    (hf : ∀ a, lenient = .ok a → Detects (after a) (f a) (g a)) :
    Detects (clash ∨ ∃ a, lenient = .ok a ∧ after a) (strict >>= f) (lenient >>= g) where
  conflicted := by
    intro hc
    by_cases hclash : clash
    · exact (h.conflicted hclash).bind f
    · obtain ⟨a, rfl, ha⟩ := hc.resolve_left hclash
      rw [h.same hclash]
      exact (hf a rfl).conflicted ha
  same := by
    intro hn
    obtain ⟨hclash, hafter⟩ := not_or.1 hn
    rw [h.same hclash]
    cases lenient with
    | error e => rfl
    | ok a => exact (hf a rfl).same fun ha => hafter ⟨a, rfl, ha⟩
  calm := by
    cases lenient with
    | error e =>
        rintro ⟨message, group, ⟨⟩⟩
        exact h.calm ⟨message, group, rfl⟩
    | ok a => exact (hf a rfl).calm

theorem map (h : Detects clash strict lenient) (f : α → β) :
    Detects clash (strict.map f) (lenient.map f) := by
  have hb := h.bind (f := fun a => .ok (f a)) fun a _ => Detects.none (not_conflicted_ok (f a))
  exact hb.congr ⟨fun hc => hc.resolve_right fun ⟨_, _, hf⟩ => hf, .inl⟩

theorem foldlM {P : σ → Prop} {clash : σ → β → Prop} {strict lenient : σ → β → Except Error σ}
    (hstep : ∀ s x, P s → Detects (clash s x) (strict s x) (lenient s x))
    (hP : ∀ s x s', P s → lenient s x = .ok s' → P s') (xs : List β) {s : σ} (hs : P s) :
    Detects (∃ before x after s', xs = before ++ x :: after ∧ before.foldlM lenient s = .ok s' ∧
      clash s' x) (xs.foldlM strict s) (xs.foldlM lenient s) := by
  induction xs generalizing s with
  | nil =>
      refine (Detects.none (not_conflicted_ok s)).congr ⟨False.elim, ?_⟩
      rintro ⟨before, x, after, s', he, -⟩
      cases before <;> cases he
  | cons x xs ih =>
      rw [List.foldlM_cons, List.foldlM_cons]
      refine ((hstep s x hs).bind fun a ha => ih (hP s x a hs ha)).congr ?_
      constructor
      · rintro (hc | ⟨a, ha, before, y, after, s', rfl, hf, hc⟩)
        · exact ⟨[], x, xs, s, rfl, rfl, hc⟩
        · refine ⟨x :: before, y, after, s', rfl, ?_, hc⟩
          rw [List.foldlM_cons, ha]
          exact hf
      · rintro ⟨before, y, after, s', he, hf, hc⟩
        cases before with
        | nil =>
            cases he
            cases hf
            exact .inl hc
        | cons z before =>
            cases he
            rw [List.foldlM_cons] at hf
            obtain ⟨a, ha, hf⟩ := Except.bind_eq_ok hf
            exact .inr ⟨a, ha, before, y, after, s', rfl, hf, hc⟩

theorem mapM {clash : α → Prop} {strict lenient : α → Except Error β}
    (h : ∀ x, Detects (clash x) (strict x) (lenient x)) (xs : List α) :
    Detects (∃ before x after, xs = before ++ x :: after ∧
      (∀ y ∈ before, ∃ b, lenient y = .ok b) ∧ clash x) (xs.mapM strict) (xs.mapM lenient) := by
  induction xs with
  | nil =>
      refine (Detects.none (not_conflicted_ok [])).congr ⟨False.elim, ?_⟩
      rintro ⟨before, x, after, he, -⟩
      cases before <;> cases he
  | cons x xs ih =>
      rw [List.mapM_cons, List.mapM_cons]
      refine ((h x).bind fun b _ => ih.map (b :: ·)).congr ?_
      constructor
      · rintro (hc | ⟨b, hb, before, y, after, rfl, hok, hc⟩)
        · exact ⟨[], x, xs, rfl, List.forall_mem_nil _, hc⟩
        · exact ⟨x :: before, y, after, rfl, List.forall_mem_cons.2 ⟨⟨b, hb⟩, hok⟩, hc⟩
      · rintro ⟨before, y, after, he, hok, hc⟩
        cases before with
        | nil =>
            cases he
            exact .inl hc
        | cons z before =>
            cases he
            obtain ⟨⟨b, hb⟩, hok⟩ := List.forall_mem_cons.1 hok
            exact .inr ⟨b, hb, before, y, after, rfl, hok, hc⟩

end Detects

end Runs

def lastGiven (group : String) (given : List (Field × Value)) : Option (Field × Value) :=
  (given.filter fun p => p.1.group? == some group).getLast?

def Rivals (given : List (Field × Value)) : Prop :=
  ∃ p ∈ given, ∃ q ∈ given,
    p.1.group?.isSome ∧ q.1.group? = p.1.group? ∧ p.1.number ≠ q.1.number

section Given

variable {group : String} {given others : List (Field × Value)} {p : Field × Value}

theorem lastGiven_concat (h : p.1.group? = some group) : lastGiven group (given ++ [p]) = some p := by
  simp [lastGiven, h]

theorem lastGiven_concat_of_ne (h : p.1.group? ≠ some group) :
    lastGiven group (given ++ [p]) = lastGiven group given := by
  simp [lastGiven, h]

theorem of_lastGiven (h : lastGiven group given = some p) : p ∈ given ∧ p.1.group? = some group := by
  simpa using List.mem_of_getLast? h

theorem exists_lastGiven (hp : p ∈ given) (hg : p.1.group? = some group) :
    ∃ q, lastGiven group given = some q := by
  have hne : (given.filter fun p => p.1.group? == some group) ≠ [] :=
    List.ne_nil_of_mem (List.mem_filter.2 ⟨hp, by simp [hg]⟩)
  exact ⟨_, List.getLast?_eq_some_getLast hne⟩

theorem not_rivals_nil : ¬Rivals [] := by
  rintro ⟨p, hp, -⟩
  cases hp

theorem exists_rival (hn : ¬Rivals given) (h : Rivals (given ++ [p])) :
    ∃ q ∈ given, p.1.group?.isSome ∧ q.1.group? = p.1.group? ∧ q.1.number ≠ p.1.number := by
  obtain ⟨x, hx, y, hy, hsome, hgroup, hne⟩ := h
  rw [List.mem_append, List.mem_singleton] at hx hy
  rcases hx with hx | rfl <;> rcases hy with hy | rfl
  · exact absurd ⟨x, hx, y, hy, hsome, hgroup, hne⟩ hn
  · exact ⟨x, hx, by rwa [hgroup], hgroup.symm, hne⟩
  · exact ⟨y, hy, hsome, hgroup, hne.symm⟩
  · exact absurd rfl hne

end Given

namespace Message

structure KeepsLast (s : Schema) (type : String) (given : List (Field × Value)) (m : Message) :
    Prop where
  typed : m.type = type
  ascending : m.Ascending
  declared : ∀ p ∈ given, p.1 ∈ (s.find type).fields
  held : ∀ group, ∀ f ∈ (s.find type).groupMembers group,
    m.get? f.number =
      (lastGiven group given).bind fun p => if p.1.number = f.number then some p.2 else none

variable {s : Schema} {type : String} {given : List (Field × Value)} {m : Message} {f : Field}
variable {v : Value}

namespace KeepsLast

theorem messageType (h : m.KeepsLast s type given) : m.messageType s = s.find type := by
  rw [Message.messageType, h.typed]

theorem zero (check : (s.find type).check = .ok ()) : (zero (s.find type)).KeepsLast s type [] where
  typed := by rw [type_zero, Schema.name_find]
  ascending := ascending_zero _
  declared := nofun
  held := by
    intro group f hf
    rw [get?_zero_of_group check hf]
    rfl

theorem store (h : m.KeepsLast s type given) (check : (s.find type).check = .ok ())
    (hf : f ∈ (s.find type).fields) (v : Value) :
    (m.store s f v).KeepsLast s type (given ++ [(f, v)]) where
  typed := (type_store s m f v).trans h.typed
  ascending := h.ascending.store s f v
  declared := by
    intro p hp
    rcases List.mem_append.1 hp with hp | hp
    · exact h.declared p hp
    · exact List.mem_singleton.1 hp ▸ hf
  held := by
    intro group g hg
    obtain ⟨hmem, hgroup⟩ := mem_groupMembers.1 hg
    rw [get?_store s h.ascending]
    by_cases hfg : f.group? = some group
    · rw [lastGiven_concat (p := (f, v)) hfg]
      by_cases hn : g.number = f.number
      · simp [hn]
      · have hs : ∃ x ∈ m.siblings s f, x.number = g.number :=
          ⟨g, (mem_siblings s).2 ⟨by rwa [h.messageType], by simp [hfg], hgroup.trans hfg.symm, hn⟩,
            rfl⟩
        simp [hn, hs, Ne.symm hn]
    · have hn : g.number ≠ f.number := fun hn =>
        hfg (MessageType.eq_of_number check hmem hf hn ▸ hgroup)
      have hs : ¬∃ x ∈ m.siblings s f, x.number = g.number := by
        rintro ⟨x, hx, hxn⟩
        obtain ⟨hxm, -, hxg, -⟩ := (mem_siblings s).1 hx
        rw [h.messageType] at hxm
        rw [MessageType.eq_of_number check hxm hmem hxn] at hxg
        exact hfg (hxg.symm.trans hgroup)
      rw [lastGiven_concat_of_ne (p := (f, v)) hfg, if_neg hn, if_neg hs, h.held group g hg]

theorem append (h : m.KeepsLast s type given) (check : (s.find type).check = .ok ())
    (hf : f ∈ (s.find type).fields) (hg : f.group? = none) (v : Value) :
    (m.append f v).KeepsLast s type given where
  typed := (type_append m f v).trans h.typed
  ascending := h.ascending.append f v
  declared := h.declared
  held := by
    intro group g hmem
    have hn : g.number ≠ f.number := by
      intro hn
      obtain ⟨hm, hgroup⟩ := mem_groupMembers.1 hmem
      rw [MessageType.eq_of_number check hm hf hn, hg] at hgroup
      cases hgroup
    rw [append_eq, get?_insert, if_neg hn, h.held group g hmem]

theorem ungrouped (h : m.KeepsLast s type given) (hf : f ∈ (s.find type).fields)
    (hg : f.group? = none) (v : Value) : m.KeepsLast s type (given ++ [(f, v)]) where
  typed := h.typed
  ascending := h.ascending
  declared := by
    intro p hp
    rcases List.mem_append.1 hp with hp | hp
    · exact h.declared p hp
    · exact List.mem_singleton.1 hp ▸ hf
  held := by
    intro group g hmem
    rw [lastGiven_concat_of_ne (by simp [hg]), h.held group g hmem]

theorem displaces_iff (h : m.KeepsLast s type given) :
    m.displaces s f = true ↔ ∃ g ∈ (s.find type).fields, f.group?.isSome ∧ g.group? = f.group? ∧
      g.number ≠ f.number ∧ m.has g.number = true := by
  rw [displaces, List.any_eq_true]
  simp only [mem_siblings, h.messageType, and_assoc]

theorem lastGiven_of_has (h : m.KeepsLast s type given) {group : String}
    (hf : f ∈ (s.find type).groupMembers group) (hh : m.has f.number = true) :
    ∃ p, lastGiven group given = some p ∧ p.1.number = f.number := by
  obtain ⟨v, hv⟩ := has_eq_true_iff.1 hh
  rw [h.held group f hf] at hv
  obtain ⟨p, hp, hv⟩ := Option.bind_eq_some_iff.1 hv
  split at hv
  · next hn => exact ⟨p, hp, hn⟩
  · cases hv

theorem rivals_of_displaces (h : m.KeepsLast s type given) (hd : m.displaces s f = true) (v : Value) :
    Rivals (given ++ [(f, v)]) := by
  obtain ⟨g, hg, hsome, hgroup, hne, hh⟩ := h.displaces_iff.1 hd
  obtain ⟨group, hfg⟩ := Option.isSome_iff_exists.1 hsome
  obtain ⟨p, hp, hn⟩ := h.lastGiven_of_has (mem_groupMembers.2 ⟨hg, hgroup.trans hfg⟩) hh
  obtain ⟨hmem, hpg⟩ := of_lastGiven hp
  refine ⟨p, List.mem_append_left _ hmem, (f, v), by simp, by simp [hpg], ?_, ?_⟩
  · exact hfg.trans hpg.symm
  · exact hn ▸ hne

theorem displaces_of_rivals (h : m.KeepsLast s type given) (hn : ¬Rivals given)
    (hr : Rivals (given ++ [(f, v)])) : m.displaces s f = true := by
  obtain ⟨q, hq, hsome, hgroup, hne⟩ := exists_rival hn hr
  obtain ⟨group, hfg⟩ := Option.isSome_iff_exists.1 hsome
  obtain ⟨p, hp⟩ := exists_lastGiven hq (hgroup.trans hfg)
  obtain ⟨hmem, hpg⟩ := of_lastGiven hp
  have hpn : p.1.number = q.1.number := Decidable.byContradiction fun hpn =>
    hn ⟨p, hmem, q, hq, by simp [hpg], (hgroup.trans hfg).trans hpg.symm, hpn⟩
  have hheld := h.held group p.1 (mem_groupMembers.2 ⟨h.declared p hmem, hpg⟩)
  rw [hp, Option.bind_some, if_pos rfl] at hheld
  exact h.displaces_iff.2 ⟨p.1, h.declared p hmem, hsome, hpg.trans hfg.symm, hpn ▸ hne,
    has_eq_true_iff.2 ⟨p.2, hheld⟩⟩

theorem which?_any (h : m.KeepsLast s type given) {group : String} (hg : f.group? = some group) :
    (m.which? s group).any (·.number != f.number) = m.displaces s f := by
  rw [Bool.eq_iff_iff, h.displaces_iff]
  have members : (m.messageType s).groupMembers group = (s.find type).groupMembers group := by
    rw [h.messageType]
  constructor
  · intro hw
    obtain ⟨g, hwg, hne⟩ := (Option.any_eq_true _ _).1 hw
    have hmem := mem_groupMembers.1 (members ▸ List.mem_of_find?_eq_some hwg)
    exact ⟨g, hmem.1, by simp [hg], hmem.2.trans hg.symm, by simpa using hne,
      by simpa using List.find?_some hwg⟩
  · rintro ⟨g, hmem, -, hgroup, hne, hh⟩
    have hgm := mem_groupMembers.2 ⟨hmem, hgroup.trans hg⟩
    cases hw : m.which? s group with
    | none => exact absurd hh (List.find?_eq_none.1 hw g (members ▸ hgm))
    | some x =>
        have hxm := members ▸ List.mem_of_find?_eq_some hw
        have hxh : m.has x.number = true := by simpa using List.find?_some hw
        -- both are set, so both are the last one given
        obtain ⟨p, hp, hpx⟩ := h.lastGiven_of_has hxm hxh
        obtain ⟨q, hq, hqg⟩ := h.lastGiven_of_has hgm hh
        rw [hp] at hq
        cases hq
        rw [hqg] at hpx
        simpa [← hpx] using hne

end KeepsLast

inductive ItemsClash {β : Type} (inner : β → Prop) (given : β → Option (Field × Value))
    (lenient : Message → β → Except Error Message) (m : Message) : List β → Prop
  | rivals {start rest : List β} {k : Message} (read : start.foldlM lenient m = .ok k)
      (rivals : Rivals (start.filterMap given)) : ItemsClash inner given lenient m (start ++ rest)
  | inner {start rest : List β} {x : β} {k : Message} (read : start.foldlM lenient m = .ok k)
      (clash : inner x) : ItemsClash inner given lenient m (start ++ x :: rest)

structure Gathers {β : Type} (s : Schema) (type : String) (inner : β → Prop)
    (given : β → Option (Field × Value)) (strict lenient : Message → β → Except Error Message) :
    Prop where
  detects : ∀ before m x, m.KeepsLast s type before →
    Detects (inner x ∨ ∃ p ∈ given x, m.displaces s p.1 = true) (strict m x) (lenient m x)
  accepts : ∀ before m x p, m.KeepsLast s type before → given x = some p →
    ∃ m', lenient m x = .ok m'
  keeps : ∀ before m x m', m.KeepsLast s type before → lenient m x = .ok m' →
    m'.KeepsLast s type (before ++ (given x).toList)

theorem ItemsClash.whole {β : Type} {inner : β → Prop} {given : β → Option (Field × Value)}
    {lenient : Message → β → Except Error Message} {m k : Message} {xs : List β}
    (read : xs.foldlM lenient m = .ok k) (rivals : Rivals (xs.filterMap given)) :
    ItemsClash inner given lenient m xs := by
  have h : ItemsClash inner given lenient m (xs ++ []) := .rivals read rivals
  rwa [List.append_nil] at h

namespace Gathers

variable {β : Type} {inner : β → Prop} {gives : β → Option (Field × Value)} {m' : Message}
variable {strict lenient : Message → β → Except Error Message} {xs : List β}

theorem filterMap_cons_eq (x : β) (xs : List β) :
    (x :: xs).filterMap gives = (gives x).toList ++ xs.filterMap gives := by
  cases hx : gives x <;> simp [hx]

theorem keepsLast (h : Gathers s type inner gives strict lenient) (hm : m.KeepsLast s type given)
    (hf : xs.foldlM lenient m = .ok m') : m'.KeepsLast s type (given ++ xs.filterMap gives) := by
  induction xs generalizing m given with
  | nil =>
      cases hf
      simpa using hm
  | cons x xs ih =>
      rw [List.foldlM_cons] at hf
      obtain ⟨k, hk, hf⟩ := Except.bind_eq_ok hf
      have := ih (h.keeps given m x k hm hk) hf
      rwa [List.append_assoc, ← filterMap_cons_eq] at this

theorem exists_displacing (h : Gathers s type inner gives strict lenient)
    (hm : m.KeepsLast s type given) (hn : ¬Rivals given) (hf : xs.foldlM lenient m = .ok m')
    (hr : Rivals (given ++ xs.filterMap gives)) :
    ∃ before x after k, xs = before ++ x :: after ∧ before.foldlM lenient m = .ok k ∧
      ∃ p ∈ gives x, k.displaces s p.1 = true := by
  induction xs generalizing m given with
  | nil => exact absurd (by simpa using hr) hn
  | cons x xs ih =>
      rw [List.foldlM_cons] at hf
      obtain ⟨k, hk, hf⟩ := Except.bind_eq_ok hf
      rw [filterMap_cons_eq, ← List.append_assoc] at hr
      by_cases hx : Rivals (given ++ (gives x).toList)
      · cases hp : gives x with
        | none =>
            rw [hp, Option.toList_none, List.append_nil] at hx
            exact absurd hx hn
        | some p =>
            rw [hp] at hx
            exact ⟨[], x, xs, m, rfl, rfl, p, hp, hm.displaces_of_rivals hn hx⟩
      · obtain ⟨before, y, after, last, rfl, hlast, hd⟩ := ih (h.keeps given m x k hm hk) hx hf hr
        refine ⟨x :: before, y, after, last, rfl, ?_, hd⟩
        rw [List.foldlM_cons, hk]
        exact hlast

theorem detects_foldlM (h : Gathers s type inner gives strict lenient) (hm : m.KeepsLast s type [])
    (xs : List β) :
    Detects (ItemsClash inner gives lenient m xs) (xs.foldlM strict m) (xs.foldlM lenient m) := by
  have hrun := Detects.foldlM (P := fun k => ∃ before, k.KeepsLast s type before)
    (fun k x ⟨before, hk⟩ => h.detects before k x hk)
    (fun k x k' ⟨before, hk⟩ hs => ⟨_, h.keeps before k x k' hk hs⟩) xs ⟨[], hm⟩
  refine hrun.congr ⟨?_, ?_⟩
  · rintro ⟨before, x, after, k, rfl, hk, hinner | ⟨p, hp, hd⟩⟩
    · exact .inner hk hinner
    · have hkeeps := h.keepsLast hm hk
      obtain ⟨k', hk'⟩ := h.accepts _ k x p hkeeps hp
      have hread : (before ++ [x]).foldlM lenient m = .ok k' := by
        rw [List.foldlM_append, hk]
        change [x].foldlM lenient k = _
        rw [List.foldlM_cons, hk']
        rfl
      have hlast : [x].filterMap gives = [p] := by simp [show gives x = some p from hp]
      have hrivals := hkeeps.rivals_of_displaces hd p.2
      rw [List.nil_append, ← hlast, ← List.filterMap_append] at hrivals
      rw [List.append_cons]
      exact .rivals hread hrivals
  · rintro (⟨hk, hrivals⟩ | ⟨hk, hinner⟩)
    · obtain ⟨before, x, after, last, rfl, hlast, hd⟩ :=
        h.exists_displacing hm not_rivals_nil hk (by simpa using hrivals)
      exact ⟨before, x, _, last, List.append_assoc .., hlast, .inr hd⟩
    · exact ⟨_, _, _, _, rfl, hk, .inl hinner⟩

end Gathers

end Message

end SchemaRpc
