namespace SchemaRpc.Assoc

variable {α : Type}

def get? (key : Nat) : List (Nat × α) → Option α
  | [] => none
  | (k, a) :: rest => if k = key then some a else get? key rest

def insert (key : Nat) (a : α) : List (Nat × α) → List (Nat × α)
  | [] => [(key, a)]
  | (k, b) :: rest =>
    if key < k then (key, a) :: (k, b) :: rest
    else if k = key then (key, a) :: rest
    else (k, b) :: insert key a rest

def erase (key : Nat) : List (Nat × α) → List (Nat × α)
  | [] => []
  | (k, a) :: rest => if k = key then rest else (k, a) :: erase key rest

def Ascending (entries : List (Nat × α)) : Prop :=
  entries.Pairwise fun p q => p.1 < q.1

variable {entries : List (Nat × α)} {key other : Nat} {a : α}

theorem get?_eq_none_of_lt (h : ∀ p ∈ entries, key < p.1) : get? key entries = none := by
  induction entries with
  | nil => rfl
  | cons p rest ih =>
      have hp := h p List.mem_cons_self
      rw [get?, if_neg (by omega)]
      exact ih fun q hq => h q (List.mem_cons_of_mem _ hq)

theorem mem_of_get?_eq_some (h : get? key entries = some a) : (key, a) ∈ entries := by
  induction entries with
  | nil => cases h
  | cons p rest ih =>
      rw [get?] at h
      split at h
      · next hk => cases h; exact hk ▸ List.mem_cons_self
      · exact List.mem_cons_of_mem _ (ih h)

theorem get?_eq_some_of_mem (h : Ascending entries) (hm : (key, a) ∈ entries) :
    get? key entries = some a := by
  induction entries with
  | nil => cases hm
  | cons p rest ih =>
      have hp := List.pairwise_cons.1 h
      rw [get?]
      rcases List.mem_cons.1 hm with rfl | hm
      · exact if_pos rfl
      · rw [if_neg (Nat.ne_of_lt (hp.1 _ hm))]
        exact ih hp.2 hm

theorem get?_insert :
    get? other (insert key a entries) = if other = key then some a else get? other entries := by
  induction entries with
  | nil =>
      simp only [insert, get?]
      split <;> split <;> simp_all
  | cons p rest ih =>
      by_cases ho : other = key
      · subst ho
        simp only [insert]
        split
        · simp [get?]
        · split
          · simp [get?]
          · next hne => simp [get?, hne, ih]
      · simp only [insert]
        split
        · rw [get?, if_neg (Ne.symm ho)]
        · split
          · next hk => rw [get?, get?, if_neg (Ne.symm ho), if_neg (hk ▸ Ne.symm ho)]
          · simp only [get?, ih, if_neg ho]

theorem key_mem_insert {p : Nat × α} (h : p ∈ insert key a entries) :
    p = (key, a) ∨ p ∈ entries := by
  induction entries with
  | nil => exact .inl (List.mem_singleton.1 h)
  | cons q rest ih =>
      rw [insert] at h
      split at h
      · exact List.mem_cons.1 h
      · split at h
        · cases List.mem_cons.1 h with
          | inl h => exact .inl h
          | inr h => exact .inr (List.mem_cons_of_mem _ h)
        · cases List.mem_cons.1 h with
          | inl h => exact .inr (h ▸ List.mem_cons_self)
          | inr h =>
              cases ih h with
              | inl h => exact .inl h
              | inr h => exact .inr (List.mem_cons_of_mem _ h)

theorem get?_eq_none_iff : get? key entries = none ↔ key ∉ entries.map Prod.fst := by
  induction entries with
  | nil => simp [get?]
  | cons p rest ih =>
      rw [get?, List.map_cons, List.mem_cons, not_or]
      split
      · next hk => simp [hk]
      · next hk => simp [ih, Ne.symm hk]

theorem perm_insert (h : get? key entries = none) :
    (insert key a entries).Perm ((key, a) :: entries) := by
  induction entries with
  | nil => exact .refl _
  | cons p rest ih =>
      rw [get?] at h
      split at h
      · cases h
      · next hk =>
          rw [insert, if_neg hk]
          split
          · exact .refl _
          · exact ((ih h).cons p).trans (.swap (key, a) p rest)

theorem ascending_insert (h : Ascending entries) : Ascending (insert key a entries) := by
  induction entries with
  | nil => exact List.pairwise_singleton _ _
  | cons p rest ih =>
      have hp := List.pairwise_cons.1 h
      rw [insert]
      split
      · next hk =>
          refine List.pairwise_cons.2 ⟨fun q hq => ?_, h⟩
          cases List.mem_cons.1 hq with
          | inl hq => exact hq ▸ hk
          | inr hq => exact Nat.lt_trans hk (hp.1 q hq)
      · split
        · next hk => exact List.pairwise_cons.2 ⟨fun q hq => hk ▸ hp.1 q hq, hp.2⟩
        · next hlt hne =>
            refine List.pairwise_cons.2 ⟨fun q hq => ?_, ih hp.2⟩
            cases key_mem_insert hq with
            | inl hq => rw [hq]; show p.1 < key; omega
            | inr hq => exact hp.1 q hq

theorem get?_erase (h : Ascending entries) :
    get? other (erase key entries) = if other = key then none else get? other entries := by
  induction entries with
  | nil => simp [erase, get?]
  | cons p rest ih =>
      have hp := List.pairwise_cons.1 h
      rw [erase]
      split
      · next hk =>
          split
          · next ho =>
              refine get?_eq_none_of_lt fun q hq => ?_
              have := hp.1 q hq
              omega
          · rw [get?, if_neg (by omega)]
      · simp only [get?, ih hp.2]
        split <;> split <;> simp_all

theorem mem_of_mem_erase {p : Nat × α} (h : p ∈ erase key entries) : p ∈ entries := by
  induction entries with
  | nil => cases h
  | cons q rest ih =>
      rw [erase] at h
      split at h
      · exact List.mem_cons_of_mem _ h
      · cases List.mem_cons.1 h with
        | inl h => exact h ▸ List.mem_cons_self
        | inr h => exact List.mem_cons_of_mem _ (ih h)

theorem ascending_erase (h : Ascending entries) : Ascending (erase key entries) := by
  induction entries with
  | nil => exact h
  | cons p rest ih =>
      have hp := List.pairwise_cons.1 h
      rw [erase]
      split
      · exact hp.2
      · exact List.pairwise_cons.2 ⟨fun q hq => hp.1 q (mem_of_mem_erase hq), ih hp.2⟩

theorem ext {left right : List (Nat × α)} (hl : Ascending left) (hr : Ascending right)
    (h : ∀ key, get? key left = get? key right) : left = right := by
  induction left generalizing right with
  | nil =>
      cases right with
      | nil => rfl
      | cons q rest => have := h q.1; simp [get?] at this
  | cons p rest ih =>
      cases right with
      | nil => have := h p.1; simp [get?] at this
      | cons q others =>
          have hp := List.pairwise_cons.1 hl
          have hq := List.pairwise_cons.1 hr
          have hpq : p.1 = q.1 := by
            cases Nat.lt_trichotomy p.1 q.1 with
            | inl hlt =>
                have hn : get? p.1 (q :: others) = none := get?_eq_none_of_lt fun r hr =>
                  match List.mem_cons.1 hr with
                  | .inl hr => hr ▸ hlt
                  | .inr hr => Nat.lt_trans hlt (hq.1 r hr)
                have := h p.1
                rw [hn, get?, if_pos rfl] at this
                cases this
            | inr hge =>
                cases hge with
                | inl he => exact he
                | inr hlt =>
                    have hn : get? q.1 (p :: rest) = none := get?_eq_none_of_lt fun r hr =>
                      match List.mem_cons.1 hr with
                      | .inl hr => hr ▸ hlt
                      | .inr hr => Nat.lt_trans hlt (hp.1 r hr)
                    have := h q.1
                    rw [hn, get?, if_pos rfl] at this
                    cases this
          have hv : p.2 = q.2 := by
            have := h p.1
            simpa [get?, hpq] using this
          have he : p = q := Prod.ext hpq hv
          subst he
          congr 1
          refine ih hp.2 hq.2 fun key => ?_
          by_cases hk : p.1 = key
          · rw [get?_eq_none_of_lt fun r hr => hk ▸ hp.1 r hr,
              get?_eq_none_of_lt fun r hr => hk ▸ hq.1 r hr]
          · have := h key
            simpa [get?, hk] using this

end SchemaRpc.Assoc
