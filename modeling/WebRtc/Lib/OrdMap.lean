import Mathlib

/-! Finite maps as association lists with strictly increasing keys. Iteration
is in key order, as in an ordered associative container. -/

instance BitVec.instLinearOrder {w : Nat} : LinearOrder (BitVec w) where
  le_refl := BitVec.le_refl
  le_trans _ _ _ := BitVec.le_trans
  le_antisymm _ _ h h' := BitVec.le_antisymm h h'
  le_total := BitVec.le_total
  lt_iff_le_not_ge a b := by simp only [BitVec.le_def, BitVec.lt_def]; omega
  toDecidableLE := inferInstance
  toDecidableLT := inferInstance
  toDecidableEq := inferInstance

structure OrdMap (κ ν : Type) [LinearOrder κ] where
  entries : List (κ × ν)
  sorted : entries.Pairwise (fun a b => a.1 < b.1)
  deriving DecidableEq

namespace OrdMap

open List

variable {κ ν : Type} [LinearOrder κ]

def lookupEntries (k : κ) : List (κ × ν) → Option ν
  | [] => none
  | (k', v) :: rest => if k = k' then some v else lookupEntries k rest

/-- Replace the value at `k` by `f` of it, inserting an entry when there is none. -/
def upsertEntries (k : κ) (f : Option ν → ν) : List (κ × ν) → List (κ × ν)
  | [] => [(k, f none)]
  | (k', v) :: rest =>
    if k < k' then (k, f none) :: (k', v) :: rest
    else if k = k' then (k, f (some v)) :: rest
    else (k', v) :: upsertEntries k f rest

theorem mem_upsertEntries {k : κ} {f : Option ν → ν} {l : List (κ × ν)} {e : κ × ν}
    (h : e ∈ upsertEntries k f l) : e.1 = k ∨ e ∈ l := by
  induction l with
  | nil => simp [upsertEntries] at h; simp [h]
  | cons a rest ih =>
    obtain ⟨k', v⟩ := a
    simp only [upsertEntries] at h
    split_ifs at h with h1 h2
    · rcases mem_cons.mp h with rfl | h
      · exact .inl rfl
      · exact .inr h
    · rcases mem_cons.mp h with rfl | h
      · exact .inl rfl
      · exact .inr (mem_cons_of_mem _ h)
    · rcases mem_cons.mp h with rfl | h
      · exact .inr mem_cons_self
      · exact (ih h).imp_right (mem_cons_of_mem _)

theorem upsertEntries_sorted (k : κ) (f : Option ν → ν) {l : List (κ × ν)}
    (h : l.Pairwise (fun a b => a.1 < b.1)) :
    (upsertEntries k f l).Pairwise (fun a b => a.1 < b.1) := by
  induction l with
  | nil => simp [upsertEntries]
  | cons a rest ih =>
    obtain ⟨k', v⟩ := a
    obtain ⟨hhead, hrest⟩ := pairwise_cons.mp h
    simp only [upsertEntries]
    split_ifs with h1 h2
    · refine pairwise_cons.mpr ⟨fun e he => ?_, h⟩
      rcases mem_cons.mp he with rfl | he
      · exact h1
      · exact h1.trans (hhead e he)
    · subst h2
      exact pairwise_cons.mpr ⟨hhead, hrest⟩
    · refine pairwise_cons.mpr ⟨fun e he => ?_, ih hrest⟩
      rcases mem_upsertEntries he with hk | he
      · exact hk ▸ lt_of_le_of_ne (not_lt.mp h1) (Ne.symm h2)
      · exact hhead e he

def empty : OrdMap κ ν := ⟨[], List.Pairwise.nil⟩

instance : EmptyCollection (OrdMap κ ν) := ⟨empty⟩

instance : Inhabited (OrdMap κ ν) := ⟨∅⟩

def find? (m : OrdMap κ ν) (k : κ) : Option ν := lookupEntries k m.entries

def upsert (m : OrdMap κ ν) (k : κ) (f : Option ν → ν) : OrdMap κ ν :=
  ⟨upsertEntries k f m.entries, upsertEntries_sorted k f m.sorted⟩

/-- Keep the entries whose key satisfies `p`. -/
def filterKeys (m : OrdMap κ ν) (p : κ → Bool) : OrdMap κ ν :=
  ⟨m.entries.filter (fun e => p e.1), m.sorted.filter _⟩

def erase (m : OrdMap κ ν) (k : κ) : OrdMap κ ν := m.filterKeys (fun j => j ≠ k)

/-- Apply `f` to every value. -/
def mapValues (m : OrdMap κ ν) (f : κ → ν → ν) : OrdMap κ ν :=
  ⟨m.entries.map (fun e => (e.1, f e.1 e.2)), List.pairwise_map.mpr m.sorted⟩

def sumBy (m : OrdMap κ ν) (f : ν → Nat) : Nat := (m.entries.map (fun e => f e.2)).sum

theorem lookupEntries_eq_none {k : κ} {l : List (κ × ν)} (h : ∀ e ∈ l, k < e.1) :
    lookupEntries k l = none := by
  induction l with
  | nil => rfl
  | cons a rest ih =>
    have ha := h a (by simp)
    simp [lookupEntries, ha.ne, ih (fun e he => h e (by simp [he]))]

theorem lookupEntries_eq_some_iff {k : κ} {v : ν} {l : List (κ × ν)}
    (hs : l.Pairwise (fun a b => a.1 < b.1)) : lookupEntries k l = some v ↔ (k, v) ∈ l := by
  induction l with
  | nil => simp [lookupEntries]
  | cons a rest ih =>
    obtain ⟨k', v'⟩ := a
    obtain ⟨hhead, hrest⟩ := pairwise_cons.mp hs
    by_cases hk : k = k'
    · subst hk
      have hno : (k, v) ∉ rest := fun h => lt_irrefl k (hhead (k, v) h)
      simp [lookupEntries, hno, eq_comm]
    · simp [lookupEntries, hk, ih hrest]

theorem lookupEntries_upsertEntries (k j : κ) (f : Option ν → ν) {l : List (κ × ν)}
    (hs : l.Pairwise (fun a b => a.1 < b.1)) : lookupEntries j (upsertEntries k f l) =
      if j = k then some (f (lookupEntries k l)) else lookupEntries j l := by
  induction l with
  | nil => simp [upsertEntries, lookupEntries]
  | cons a rest ih =>
    obtain ⟨k', v⟩ := a
    obtain ⟨hhead, hrest⟩ := pairwise_cons.mp hs
    simp only [upsertEntries]
    split_ifs with h1 h2 h3 h4 h5
    · have hno := lookupEntries_eq_none (fun e he => h1.trans (hhead e he))
      simp [lookupEntries, h2, h1.ne, hno]
    · simp [lookupEntries, h2]
    · subst h3; simp [lookupEntries, h4]
    · subst h3; simp [lookupEntries, h4]
    · subst h5
      simp [lookupEntries, h3, ih hrest]
    · simp [lookupEntries, h5, ih hrest]

theorem find?_upsert (m : OrdMap κ ν) (k j : κ) (f : Option ν → ν) :
    (m.upsert k f).find? j = if j = k then some (f (m.find? k)) else m.find? j :=
  lookupEntries_upsertEntries k j f m.sorted

@[simp] theorem find?_upsert_self (m : OrdMap κ ν) (k : κ) (f : Option ν → ν) :
    (m.upsert k f).find? k = some (f (m.find? k)) := by
  simp [find?_upsert]

@[simp] theorem find?_empty (k : κ) : (∅ : OrdMap κ ν).find? k = none := rfl

theorem mem_entries_iff (m : OrdMap κ ν) {k : κ} {v : ν} :
    (k, v) ∈ m.entries ↔ m.find? k = some v :=
  (lookupEntries_eq_some_iff m.sorted).symm

@[simp] theorem find?_filterKeys (m : OrdMap κ ν) (p : κ → Bool) (k : κ) :
    (m.filterKeys p).find? k = if p k then m.find? k else none := by
  apply Option.ext
  intro v
  rw [← mem_entries_iff, filterKeys, mem_filter, mem_entries_iff]
  by_cases h : p k <;> simp [h]

@[simp] theorem find?_erase (m : OrdMap κ ν) (k j : κ) :
    (m.erase k).find? j = if j = k then none else m.find? j := by
  by_cases h : j = k <;> simp [erase, h]

@[simp] theorem find?_mapValues (m : OrdMap κ ν) (f : κ → ν → ν) (k : κ) :
    (m.mapValues f).find? k = (m.find? k).map (f k) := by
  simp only [find?, mapValues]
  induction m.entries with
  | nil => rfl
  | cons a rest ih =>
    by_cases h : k = a.1 <;> simp [lookupEntries, h, ih]

theorem ext_find? {m m' : OrdMap κ ν} (h : ∀ k, m.find? k = m'.find? k) : m = m' := by
  have hp : m.entries.Perm m'.entries := by
    apply (perm_ext_iff_of_nodup (m.sorted.imp ?_) (m'.sorted.imp ?_)).mpr
    · rintro ⟨k, v⟩
      rw [mem_entries_iff, mem_entries_iff, h]
    all_goals exact fun hlt he => lt_irrefl _ (he ▸ hlt)
  have he := hp.eq_of_pairwise (fun a b _ _ hab hba => absurd hab (lt_asymm hba)) m.sorted m'.sorted
  cases m; cases m'; simpa using he

@[simp] theorem upsert_upsert_const (m : OrdMap κ ν) (k : κ) (v v' : ν) :
    (m.upsert k fun _ => v).upsert k (fun _ => v') = m.upsert k fun _ => v' := by
  refine ext_find? fun j => ?_
  simp only [find?_upsert]
  split_ifs <;> rfl

theorem sum_upsertEntries (k : κ) (g : Option ν → ν) (f : ν → Nat) {l : List (κ × ν)}
    (hs : l.Pairwise (fun a b => a.1 < b.1)) :
    ((upsertEntries k g l).map (fun e => f e.2)).sum + (lookupEntries k l).elim 0 f =
      (l.map (fun e => f e.2)).sum + f (g (lookupEntries k l)) := by
  induction l with
  | nil => simp [upsertEntries, lookupEntries]
  | cons a rest ih =>
    obtain ⟨k', v⟩ := a
    obtain ⟨hhead, hrest⟩ := pairwise_cons.mp hs
    simp only [upsertEntries]
    split_ifs with h1 h2
    · have hno := lookupEntries_eq_none (fun e he => h1.trans (hhead e he))
      simp [lookupEntries, h1.ne, hno]
      omega
    · simp [lookupEntries, h2]
      omega
    · have hh := ih hrest
      simp [lookupEntries, h2]
      omega

theorem sumBy_upsert (m : OrdMap κ ν) (k : κ) (g : Option ν → ν) (f : ν → Nat) :
    (m.upsert k g).sumBy f + (m.find? k).elim 0 f = m.sumBy f + f (g (m.find? k)) :=
  sum_upsertEntries k g f m.sorted

theorem sumBy_overwrite (m : OrdMap κ ν) (k : κ) {d : ν} (v : ν) {f : ν → Nat} (hd : f d = 0) :
    (m.upsert k fun _ => v).sumBy f + f ((m.find? k).getD d) = m.sumBy f + f v := by
  have hsum := m.sumBy_upsert k (fun _ => v) f
  cases hk : m.find? k with
  | none => simpa [hk, hd] using hsum
  | some u => simpa [hk] using hsum

theorem getD_le_sumBy (m : OrdMap κ ν) (k : κ) {d : ν} {f : ν → Nat} (hd : f d = 0) :
    f ((m.find? k).getD d) ≤ m.sumBy f := by
  have hsum := m.sumBy_overwrite k d hd
  omega

theorem sumBy_filterKeys_add (m : OrdMap κ ν) (p : κ → Bool) (f : ν → Nat) :
    (m.filterKeys p).sumBy f + (m.filterKeys (fun k => !p k)).sumBy f = m.sumBy f := by
  simp only [sumBy, filterKeys]
  induction m.entries with
  | nil => rfl
  | cons a rest ih =>
    cases h : p a.1 <;> simp [h] <;> omega

theorem sumBy_mapValues (m : OrdMap κ ν) (g : κ → ν → ν) (f h : ν → Nat)
    (he : ∀ k v, f (g k v) = h v) : (m.mapValues g).sumBy f = m.sumBy h := by
  simp only [sumBy, mapValues, map_map]
  congr 1
  exact map_congr_left fun e _ => he e.1 e.2

theorem sumBy_add (m : OrdMap κ ν) (f g : ν → Nat) :
    m.sumBy (fun v => f v + g v) = m.sumBy f + m.sumBy g := by
  simp only [sumBy]
  induction m.entries with
  | nil => rfl
  | cons e rest ih =>
    simp only [map_cons, sum_cons, ih]
    omega

theorem sumBy_congr (m : OrdMap κ ν) {f g : ν → Nat}
    (h : ∀ k v, m.find? k = some v → f v = g v) : m.sumBy f = m.sumBy g := by
  simp only [sumBy]
  congr 1
  exact map_congr_left fun e he => h e.1 e.2 (m.mem_entries_iff.mp he)

theorem le_sumBy (m : OrdMap κ ν) {k : κ} {v : ν} (h : m.find? k = some v) (f : ν → Nat) :
    f v ≤ m.sumBy f :=
  le_sum_of_mem (mem_map.mpr ⟨(k, v), m.mem_entries_iff.mpr h, rfl⟩)

theorem filterKeys_eq_of_sublist (m : OrdMap κ ν) {l : List (κ × ν)} (h : l.Sublist m.entries) :
    (m.filterKeys fun k => (l.map Prod.fst).contains k).entries = l := by
  have hl : l.Pairwise (fun a b => a.1 < b.1) := m.sorted.sublist h
  have hp : (m.filterKeys fun k => (l.map Prod.fst).contains k).entries.Perm l := by
    apply (perm_ext_iff_of_nodup ((OrdMap.sorted _).imp ?_) (hl.imp ?_)).mpr
    · rintro ⟨k, v⟩
      rw [filterKeys, mem_filter, contains_iff_mem, mem_map]
      constructor
      · rintro ⟨hm, ⟨k', v'⟩, hm', rfl⟩
        cases (m.mem_entries_iff.mp hm).symm.trans (m.mem_entries_iff.mp (h.subset hm'))
        exact hm'
      · exact fun hm => ⟨h.subset hm, ⟨k, v⟩, hm, rfl⟩
    all_goals exact fun hlt he => lt_irrefl _ (he ▸ hlt)
  exact hp.eq_of_pairwise (fun a b _ _ hab hba => absurd hab (lt_asymm hba)) (OrdMap.sorted _) hl

theorem sumBy_erase (m : OrdMap κ ν) (k : κ) (f : ν → Nat) :
    (m.erase k).sumBy f + (m.find? k).elim 0 f = m.sumBy f := by
  have hsplit := m.sumBy_filterKeys_add (fun j => j ≠ k) f
  cases h : m.find? k with
  | none =>
    have herase : m.erase k = m := by
      refine ext_find? fun j => ?_
      rw [find?_erase]
      by_cases hj : j = k
      · rw [if_pos hj, hj, h]
      · rw [if_neg hj]
    rw [herase]
    rfl
  | some v =>
    have hone := m.filterKeys_eq_of_sublist
      (singleton_sublist.mpr (m.mem_entries_iff.mpr h))
    have hp : (fun j => !decide (j ≠ k)) = fun j => ([(k, v)].map Prod.fst).contains j := by
      funext j
      by_cases hj : j = k <;> simp [hj]
    rw [hp] at hsplit
    rw [← hsplit]
    congr 1
    rw [sumBy, hone]
    simp

theorem filter_le_append_filter_gt (m : OrdMap κ ν) (k : κ) :
    (m.entries.filter fun e => decide (e.1 ≤ k)) ++ (m.entries.filter fun e => decide (k < e.1)) =
      m.entries := by
  obtain ⟨l, hs⟩ := m
  simp only
  induction l with
  | nil => rfl
  | cons e rest ih =>
    obtain ⟨hhead, hrest⟩ := pairwise_cons.mp hs
    by_cases he : e.1 ≤ k
    · simp [he, ih hrest]
    · have hgt : ∀ d ∈ rest, k < d.1 := fun d hd => (not_le.mp he).trans (hhead d hd)
      have hnone : rest.filter (fun d => decide (d.1 ≤ k)) = [] :=
        filter_eq_nil_iff.mpr fun d hd => by simpa using hgt d hd
      have hall : rest.filter (fun d => decide (k < d.1)) = rest :=
        filter_eq_self.mpr fun d hd => by simpa using hgt d hd
      simp [he, hnone, hall, not_le.mp he]

theorem tail_filter_ge_sublist (m : OrdMap κ ν) (k : κ) :
    (m.entries.filter fun e => decide (k ≤ e.1)).tail.Sublist
      (m.entries.filter fun e => decide (k < e.1)) := by
  have hsorted := (m.filterKeys fun j => decide (k ≤ j)).sorted
  have hsub : (m.entries.filter fun e => decide (k ≤ e.1)).filter (fun e => decide (k < e.1)) =
      m.entries.filter fun e => decide (k < e.1) := by
    rw [filter_filter]
    refine filter_congr fun e _ => ?_
    simpa using le_of_lt
  have hge : ∀ e ∈ m.entries.filter (fun e => decide (k ≤ e.1)), k ≤ e.1 := by simp
  rw [← hsub]
  simp only [filterKeys] at hsorted
  cases hl : m.entries.filter fun e => decide (k ≤ e.1) with
  | nil => simp
  | cons e rest =>
    rw [hl] at hsorted hge
    have hrest : rest.filter (fun d => decide (k < d.1)) = rest := by
      refine filter_eq_self.mpr fun d hd => ?_
      have hlt := (pairwise_cons.mp hsorted).1 d hd
      simpa using lt_of_le_of_lt (hge e mem_cons_self) hlt
    rw [tail_cons, filter_cons]
    split_ifs
    · rw [hrest]
      exact sublist_cons_self e rest
    · rw [hrest]

end OrdMap

abbrev OrdSet (κ : Type) [LinearOrder κ] := OrdMap κ Unit

namespace OrdSet

variable {κ : Type} [LinearOrder κ]

instance : Membership κ (OrdSet κ) := ⟨fun s k => s.find? k = some ()⟩

instance (k : κ) (s : OrdSet κ) : Decidable (k ∈ s) :=
  inferInstanceAs (Decidable (s.find? k = some ()))

def insert (s : OrdSet κ) (k : κ) : OrdSet κ := s.upsert k (fun _ => ())

def toList (s : OrdSet κ) : List κ := s.entries.map Prod.fst

def union (s t : OrdSet κ) : OrdSet κ := t.toList.foldl insert s

theorem mem_def {k : κ} {s : OrdSet κ} : k ∈ s ↔ s.find? k = some () := Iff.rfl

@[simp] theorem notMem_empty (k : κ) : k ∉ (∅ : OrdSet κ) := by simp [mem_def]

@[simp] theorem mem_insert {k j : κ} {s : OrdSet κ} : k ∈ s.insert j ↔ k = j ∨ k ∈ s := by
  by_cases h : k = j <;> simp [mem_def, insert, OrdMap.find?_upsert, h]

@[simp] theorem mem_erase {k j : κ} {s : OrdSet κ} : k ∈ OrdMap.erase s j ↔ k ≠ j ∧ k ∈ s := by
  by_cases h : k = j <;> simp [mem_def, h]

theorem erase_eq_self {k : κ} {s : OrdSet κ} (h : k ∉ s) : OrdMap.erase s k = s := by
  apply OrdMap.ext_find?
  intro j
  rw [OrdMap.find?_erase]
  split_ifs with hj
  · subst hj
    cases hf : s.find? j with
    | none => rfl
    | some u => exact absurd hf h
  · rfl

@[simp] theorem mem_filterKeys {k : κ} {s : OrdSet κ} {p : κ → Bool} :
    k ∈ OrdMap.filterKeys s p ↔ p k = true ∧ k ∈ s := by
  by_cases h : p k = true <;> simp [mem_def, h]

@[simp] theorem mem_toList {k : κ} {s : OrdSet κ} : k ∈ s.toList ↔ k ∈ s := by
  rw [mem_def, ← OrdMap.mem_entries_iff, toList, List.mem_map]
  exact ⟨fun ⟨e, he, hk⟩ => hk ▸ he, fun h => ⟨_, h, rfl⟩⟩

theorem mem_foldl_insert {k : κ} {s : OrdSet κ} {l : List κ} :
    k ∈ l.foldl insert s ↔ k ∈ s ∨ k ∈ l := by
  induction l generalizing s with
  | nil => simp
  | cons a rest ih =>
    rw [List.foldl_cons, ih, mem_insert, List.mem_cons]
    tauto

@[simp] theorem mem_union {k : κ} {s t : OrdSet κ} : k ∈ s.union t ↔ k ∈ s ∨ k ∈ t := by
  rw [union, mem_foldl_insert, mem_toList]

theorem length_toList_erase_lt {k : κ} {s : OrdSet κ} (h : k ∈ s) :
    (toList (OrdMap.erase s k)).length < s.toList.length := by
  have hm : (k, ()) ∈ s.entries := (OrdMap.mem_entries_iff s).mpr h
  simp only [toList, List.length_map, OrdMap.erase, OrdMap.filterKeys]
  exact List.length_filter_lt_length_iff_exists.mpr ⟨(k, ()), hm, by simp⟩

theorem toList_sorted (s : OrdSet κ) : s.toList.Pairwise (· < ·) := List.pairwise_map.mpr s.sorted

theorem toList_eq {s : OrdSet κ} {l : List κ} (hl : l.Pairwise (· < ·)) (hm : ∀ k, k ∈ l ↔ k ∈ s) :
    s.toList = l := by
  have hp : s.toList.Perm l := by
    apply (List.perm_ext_iff_of_nodup (s.toList_sorted.imp ne_of_lt) (hl.imp ne_of_lt)).mpr
    intro k
    rw [mem_toList, hm]
  exact hp.eq_of_pairwise (fun a b _ _ hab hba => absurd hab (lt_asymm hba)) s.toList_sorted hl

theorem toList_foldl_insert {l : List κ} (hl : l.Pairwise (· < ·)) :
    (l.foldl insert ∅).toList = l :=
  toList_eq hl fun k => by simp [mem_foldl_insert]

end OrdSet
