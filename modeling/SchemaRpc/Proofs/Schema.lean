import SchemaRpc.Schema

namespace SchemaRpc

def Field.Differs (f g : Field) : Prop :=
  f.number ≠ g.number ∧ f.name ≠ g.name

namespace MessageType

variable {t : MessageType}

theorem pairwise_of_checkFrom {earlier fields : List Field}
    (h : t.checkFrom earlier fields = .ok ()) (he : earlier.Pairwise Field.Differs) :
    (earlier ++ fields).Pairwise Field.Differs := by
  induction fields generalizing earlier with
  | nil => rwa [List.append_nil]
  | cons f rest ih =>
      rw [checkFrom] at h
      split at h
      · cases h
      · split at h
        · cases h
        · next hf =>
            have hne : ∀ e ∈ earlier, e.Differs f := by
              intro e hmem
              have := List.find?_eq_none.1 hf e hmem
              simpa [Field.Differs] using this
            have := ih h (List.pairwise_append.2
              ⟨he, List.pairwise_singleton .., by simpa using hne⟩)
            rwa [List.append_assoc] at this

theorem number_of_checkFrom {earlier fields : List Field}
    (h : t.checkFrom earlier fields = .ok ()) {f : Field} (hf : f ∈ fields) :
    0 < f.number ∧ f.number ≤ Tag.maxNumber := by
  induction fields generalizing earlier with
  | nil => cases hf
  | cons g rest ih =>
      rw [checkFrom] at h
      split at h
      · cases h
      · next hg =>
          split at h
          · cases h
          · cases List.mem_cons.1 hf with
            | inl hf => subst hf; omega
            | inr hf => exact ih h hf

theorem number_of_check (h : t.check = .ok ()) {f : Field} (hf : f ∈ t.fields) :
    0 < f.number ∧ f.number ≤ Tag.maxNumber :=
  number_of_checkFrom h hf

theorem differs_of_check (h : t.check = .ok ()) : t.fields.Pairwise Field.Differs :=
  pairwise_of_checkFrom h .nil

theorem pairwise_of_check (h : t.check = .ok ()) :
    t.fields.Pairwise fun f g => f.number ≠ g.number :=
  (differs_of_check h).imp And.left

theorem notMem_of_pairwise {f : Field} {rest : List Field}
    (h : (f :: rest).Pairwise fun f g => f.number ≠ g.number) :
    f.number ∉ rest.map Field.number := by
  intro hmem
  obtain ⟨g, hg, hn⟩ := List.mem_map.1 hmem
  exact (List.pairwise_cons.1 h).1 g hg hn.symm

theorem find?_number {fields : List Field} (h : fields.Pairwise fun f g => f.number ≠ g.number)
    {f : Field} (hf : f ∈ fields) : (fields.find? fun g => g.number == f.number) = some f := by
  induction fields with
  | nil => cases hf
  | cons g rest ih =>
      have hg := List.pairwise_cons.1 h
      cases List.mem_cons.1 hf with
      | inl hf => subst hf; simp
      | inr hf =>
          rw [List.find?_cons_of_neg (by simpa using hg.1 f hf)]
          exact ih hg.2 hf

theorem field?_of_mem (h : t.check = .ok ()) {f : Field} (hf : f ∈ t.fields) :
    t.field? f.number = some f :=
  find?_number (pairwise_of_check h) hf

theorem eq_of_number (h : t.check = .ok ()) {f g : Field} (hf : f ∈ t.fields) (hg : g ∈ t.fields)
    (hn : f.number = g.number) : f = g := by
  have := field?_of_mem h hf
  rw [hn, field?_of_mem h hg] at this
  cases this
  rfl

end MessageType

def Kind.references : Kind → List String
  | .message name => [name]
  | _ => []

namespace Schema

inductive Reaches (s : Schema) : String → String → Prop
  | refl {name : String} : Reaches s name name
  | step {name nested last : String} {f : Field} (field : f ∈ (s.find name).fields)
      (kind : f.kind = .message nested) (rest : Reaches s nested last) : Reaches s name last

def Valid (s : Schema) (name : String) : Prop :=
  ∀ last, s.Reaches name last → (s.find last).check = .ok ()

variable {s : Schema} {name inner : String}

theorem Valid.check (h : s.Valid name) : (s.find name).check = .ok () :=
  h name .refl

theorem Valid.nested (h : s.Valid name) {f : Field} (hf : f ∈ (s.find name).fields)
    (hk : f.kind = .message inner) : s.Valid inner :=
  fun last hl => h last (.step hf hk hl)

theorem mem_of_reaches {names : List String} {last : String} (hr : s.Reaches name last)
    (closed : ∀ n ∈ names, ∀ f ∈ (s.find n).fields, ∀ inner ∈ f.kind.references, inner ∈ names)
    (hn : name ∈ names) : last ∈ names := by
  induction hr with
  | refl => exact hn
  | @step name nested last f field kind _ ih =>
      have hf : nested ∈ f.kind.references := by
        rw [kind]
        exact List.mem_singleton_self nested
      exact ih (closed _ hn f field nested hf)

theorem valid_of_closed (names : List String)
    (h : ∀ n ∈ names, (s.find n).check.isOk = true ∧
      ∀ f ∈ (s.find n).fields, ∀ inner ∈ f.kind.references, inner ∈ names)
    (hn : name ∈ names) : s.Valid name := by
  intro last hr
  have hok := (h last (mem_of_reaches hr (fun n hn => (h n hn).2) hn)).1
  cases hc : (s.find last).check with
  | error e => rw [hc] at hok; cases hok
  | ok u => rfl

end Schema

end SchemaRpc
