import WebRtc.Lib.OrdMap

/-! Totals over the values of an ordered map, in any commutative monoid. -/

namespace OrdMap

variable {κ ν M : Type} [LinearOrder κ] [AddCommMonoid M]

def total (m : OrdMap κ ν) (f : ν → M) : M := (m.entries.map fun e => f e.2).sum

theorem total_upsertEntries (k : κ) (g : Option ν → ν) (f : ν → M) {l : List (κ × ν)}
    (hs : l.Pairwise (fun a b => a.1 < b.1)) :
    ((upsertEntries k g l).map (fun e => f e.2)).sum + (lookupEntries k l).elim 0 f =
      (l.map (fun e => f e.2)).sum + f (g (lookupEntries k l)) := by
  induction l with
  | nil => simp [upsertEntries, lookupEntries]
  | cons e l ih =>
    obtain ⟨k', v⟩ := e
    have hrest := List.pairwise_cons.mp hs
    simp only [upsertEntries]
    split_ifs with hlt heq
    · have hnone : lookupEntries k ((k', v) :: l) = none := by
        apply lookupEntries_eq_none
        intro e he
        rcases List.mem_cons.mp he with rfl | he
        · exact hlt
        · exact hlt.trans (hrest.1 e he)
      rw [hnone]
      simp [add_comm]
    · subst heq
      simp [lookupEntries, add_comm, add_left_comm]
    · rw [lookupEntries, if_neg heq]
      simp only [List.map_cons, List.sum_cons, add_assoc]
      rw [ih hrest.2]

theorem total_upsert (m : OrdMap κ ν) (k : κ) (g : Option ν → ν) (f : ν → M) :
    (m.upsert k g).total f + (m.find? k).elim 0 f = m.total f + f (g (m.find? k)) :=
  total_upsertEntries k g f m.sorted

theorem total_filterKeys (m : OrdMap κ ν) (p : κ → Bool) (f : ν → M)
    (h : ∀ k v, m.find? k = some v → p k = false → f v = 0) :
    (m.filterKeys p).total f = m.total f := by
  have hentries : ∀ e ∈ m.entries, p e.1 = false → f e.2 = 0 := fun e he =>
    h e.1 e.2 (m.mem_entries_iff.mp he)
  simp only [total, filterKeys]
  generalize m.entries = l at hentries ⊢
  induction l with
  | nil => rfl
  | cons e l ih =>
    have ih := ih fun e' he' => hentries e' (List.mem_cons_of_mem e he')
    cases hp : p e.1 with
    | true => simp [hp, ih]
    | false => simp [hp, ih, hentries e List.mem_cons_self hp]

theorem mem_total {α : Type} (m : OrdMap κ ν) (f : ν → Multiset α) {a : α} :
    a ∈ m.total f ↔ ∃ k v, m.find? k = some v ∧ a ∈ f v := by
  have hentries : a ∈ m.total f ↔ ∃ e ∈ m.entries, a ∈ f e.2 := by
    simp only [total]
    induction m.entries with
    | nil => simp
    | cons e l ih => simp [ih]
  rw [hentries]
  constructor
  · rintro ⟨⟨k, v⟩, he, ha⟩
    exact ⟨k, v, m.mem_entries_iff.mp he, ha⟩
  · rintro ⟨k, v, hk, ha⟩
    exact ⟨(k, v), m.mem_entries_iff.mpr hk, ha⟩

end OrdMap

theorem sum_update_add {ι α M : Type} [Fintype ι] [DecidableEq ι] [AddCommMonoid M] (g : α → M)
    (f : ι → α) (i : ι) (v : α) :
    (∑ j, g (Function.update f i v j)) + g (f i) = (∑ j, g (f j)) + g v := by
  have hrest : ∑ j ∈ Finset.univ.erase i, g (Function.update f i v j) =
      ∑ j ∈ Finset.univ.erase i, g (f j) := by
    apply Finset.sum_congr rfl
    intro j hj
    rw [Function.update_of_ne (Finset.ne_of_mem_erase hj)]
  rw [← Finset.add_sum_erase _ _ (Finset.mem_univ i), hrest, Function.update_self,
    ← Finset.add_sum_erase _ (fun j => g (f j)) (Finset.mem_univ i)]
  abel
