import Mathlib.Data.List.Basic
import Mathlib.Logic.Function.Basic
import Mathlib.Tactic.Common

/-!
# Tables of slots

A table is a list of slots that are free or hold a key with a value. A new entry goes to the first
free slot, or to the end if none is free, and an entry is removed by freeing its slot. As long as
the keys of a table are distinct it is a finite map: entering and removing a key change its value
alone.
-/

namespace SlotTable

variable {κ ν : Type*}

/-- The first free slot from number `k` on, or the end of the table. -/
def freeFrom : Nat → List (Option (κ × ν)) → Nat
  | k, [] => k
  | k, none :: _ => k
  | k, some _ :: rest => freeFrom (k + 1) rest

/-- A slot is written: inside the table it is replaced, at the end it is new. -/
def put (slots : List (Option (κ × ν))) (k : Nat) (slot : Option (κ × ν)) : List (Option (κ × ν)) :=
  if k < slots.length then slots.set k slot else slots ++ [slot]

/-- No two slots hold the same key. -/
def Distinct (slots : List (Option (κ × ν))) : Prop :=
  ∀ (j k : Nat) (key : κ) (value other : ν), slots[j]? = some (some (key, value)) →
    slots[k]? = some (some (key, other)) → j = k

variable {slots : List (Option (κ × ν))} {key other : κ} {value : ν} {j k : Nat}

/-! ## Free slots -/

theorem freeFrom_le : k ≤ freeFrom k slots ∧ freeFrom k slots ≤ k + slots.length := by
  induction slots generalizing k with
  | nil => simp [freeFrom]
  | cons slot rest ih =>
      cases slot with
      | none => simp [freeFrom]
      | some entry =>
          have := ih (k := k + 1)
          simp only [freeFrom, List.length_cons]
          omega

/-- The slot that is found is free or at the end. -/
theorem freeFrom_free (inside : freeFrom k slots < k + slots.length) :
    slots[freeFrom k slots - k]? = some none := by
  induction slots generalizing k with
  | nil => simp [freeFrom] at inside
  | cons slot rest ih =>
      cases slot with
      | none => simp [freeFrom]
      | some entry =>
          have bounds : k + 1 ≤ freeFrom (k + 1) rest ∧
            freeFrom (k + 1) rest ≤ k + 1 + rest.length :=
            freeFrom_le
          simp only [freeFrom, List.length_cons] at inside ⊢
          rw [show freeFrom (k + 1) rest - k = freeFrom (k + 1) rest - (k + 1) + 1 by omega,
            List.getElem?_cons_succ]
          exact ih (by omega)

/-- The end is found only if no slot is free. -/
theorem freeFrom_end (at_end : freeFrom k slots = k + slots.length) : none ∉ slots := by
  induction slots generalizing k with
  | nil => simp
  | cons slot rest ih =>
      cases slot with
      | none => simp [freeFrom] at at_end
      | some entry =>
          simp only [freeFrom, List.length_cons] at at_end
          simpa using ih (k := k + 1) (by omega)

/-! ## Written slots -/

theorem getElem?_put (le : k ≤ slots.length) (slot : Option (κ × ν)) (j : Nat) :
    (put slots k slot)[j]? = if j = k then some slot else slots[j]? := by
  unfold put
  split
  · next inside =>
      rw [List.getElem?_set]
      cases Decidable.em (j = k) with
      | inl eq => rw [if_pos eq.symm, if_pos inside, if_pos eq]
      | inr differ => rw [if_neg (Ne.symm differ), if_neg differ]
  · next at_end =>
      have eq : k = slots.length := by omega
      rw [List.getElem?_append, eq]
      cases Nat.lt_trichotomy j slots.length with
      | inl below => rw [if_pos below, if_neg (Nat.ne_of_lt below)]
      | inr rest =>
          cases rest with
          | inl same => rw [if_neg (by omega), if_pos same, same, Nat.sub_self]; rfl
          | inr above =>
              rw [if_neg (by omega), if_neg (by omega),
                List.getElem?_eq_none (by simp; omega), List.getElem?_eq_none (by omega)]

theorem length_put (le : k ≤ slots.length) (slot : Option (κ × ν)) :
    (put slots k slot).length = max slots.length (k + 1) := by
  unfold put
  split
  · next inside =>
      rw [List.length_set]
      omega
  · rw [List.length_append, List.length_singleton]
    omega

theorem Distinct.free (distinct : Distinct slots) (le : k ≤ slots.length) :
    Distinct (put slots k none) := by
  intro i j name left right at_i at_j
  rw [getElem?_put le] at at_i at_j
  split at at_i
  · cases at_i
  · split at at_j
    · cases at_j
    · exact distinct i j name left right at_i at_j

/-! ## Keys -/

variable [DecidableEq κ]

/-- The first slot from number `k` on that holds a key, with its value. -/
def findFrom (key : κ) : Nat → List (Option (κ × ν)) → Option (Nat × ν)
  | _, [] => none
  | k, none :: rest => findFrom key (k + 1) rest
  | k, some (other, value) :: rest =>
      if key = other then some (k, value) else findFrom key (k + 1) rest

/-- The slot of a key and its value. -/
def find (slots : List (Option (κ × ν))) (key : κ) : Option (Nat × ν) := findFrom key 0 slots

/-- The value of a key. -/
def lookup (slots : List (Option (κ × ν))) (key : κ) : Option ν := (find slots key).map Prod.snd

theorem findFrom_eq_some (found : findFrom key k slots = some (j, value)) :
    k ≤ j ∧ slots[j - k]? = some (some (key, value)) := by
  induction slots generalizing k with
  | nil => cases found
  | cons slot rest ih =>
      cases slot with
      | none =>
          obtain ⟨le, at_j⟩ := ih found
          refine ⟨by omega, ?_⟩
          rwa [show j - k = j - (k + 1) + 1 by omega, List.getElem?_cons_succ]
      | some entry =>
          obtain ⟨other, held⟩ := entry
          rw [findFrom] at found
          split at found
          · next same =>
              obtain ⟨rfl, rfl⟩ := Prod.mk.inj (Option.some.inj found)
              rw [same, Nat.sub_self]
              exact ⟨Nat.le_refl k, rfl⟩
          · obtain ⟨le, at_j⟩ := ih found
            refine ⟨by omega, ?_⟩
            rwa [show j - k = j - (k + 1) + 1 by omega, List.getElem?_cons_succ]

theorem findFrom_eq_none (absent : findFrom key k slots = none) (j : Nat) (value : ν) :
    slots[j]? ≠ some (some (key, value)) := by
  induction slots generalizing k j with
  | nil => simp
  | cons slot rest ih =>
      cases j with
      | zero =>
          cases slot with
          | none => simp
          | some entry =>
              obtain ⟨other, held⟩ := entry
              rw [findFrom] at absent
              split at absent
              · cases absent
              · next differ =>
                  intro same
                  exact differ (Prod.mk.inj (Option.some.inj (Option.some.inj same))).1.symm
      | succ j =>
          rw [List.getElem?_cons_succ]
          cases slot with
          | none => exact ih absent j
          | some entry =>
              obtain ⟨other, held⟩ := entry
              rw [findFrom] at absent
              split at absent
              · cases absent
              · exact ih absent j

theorem find_eq_some (found : find slots key = some (j, value)) :
    slots[j]? = some (some (key, value)) := (findFrom_eq_some found).2

theorem find_lt (found : find slots key = some (j, value)) : j < slots.length :=
  (List.getElem?_eq_some_iff.mp (find_eq_some found)).1

/-- In a table with distinct keys the value of a key is that of its slot. -/
theorem lookup_eq_some (distinct : Distinct slots) :
    lookup slots key = some value ↔ ∃ j : Nat, slots[j]? = some (some (key, value)) := by
  rw [lookup, Option.map_eq_some_iff]
  constructor
  · rintro ⟨⟨j, held⟩, found, rfl⟩
    exact ⟨j, find_eq_some found⟩
  · rintro ⟨j, at_j⟩
    cases found : find slots key with
    | none => exact absurd at_j (findFrom_eq_none found j value)
    | some entry =>
        obtain ⟨k, held⟩ := entry
        have at_k := find_eq_some found
        obtain rfl := distinct j k key value held at_j at_k
        rw [at_j] at at_k
        obtain ⟨-, rfl⟩ := Prod.mk.inj (Option.some.inj (Option.some.inj at_k))
        exact ⟨(j, value), rfl, rfl⟩

theorem lookup_eq_none (absent : lookup slots key = none) (j : Nat) (value : ν) :
    slots[j]? ≠ some (some (key, value)) :=
  findFrom_eq_none (Option.map_eq_none_iff.mp absent) j value

/-! ## Entering and removing keys -/

/-- A new key keeps the keys distinct. -/
theorem Distinct.enter (distinct : Distinct slots) (absent : lookup slots key = none)
    (le : k ≤ slots.length) (value : ν) : Distinct (put slots k (some (key, value))) := by
  intro i j name left right at_i at_j
  rw [getElem?_put le] at at_i at_j
  split at at_i
  · next i_eq =>
      obtain ⟨rfl, -⟩ := Prod.mk.inj (Option.some.inj (Option.some.inj at_i))
      split at at_j
      · next j_eq => rw [i_eq, j_eq]
      · exact absurd at_j (lookup_eq_none absent j right)
  · split at at_j
    · obtain ⟨rfl, -⟩ := Prod.mk.inj (Option.some.inj (Option.some.inj at_j))
      exact absurd at_i (lookup_eq_none absent i left)
    · exact distinct i j name left right at_i at_j

/-- A new key changes its own value alone. -/
theorem lookup_enter (distinct : Distinct slots) (absent : lookup slots key = none)
    (le : k ≤ slots.length) (free : k < slots.length → slots[k]? = some none) (value : ν) :
    lookup (put slots k (some (key, value))) = Function.update (lookup slots) key (some value) := by
  have still := distinct.enter absent le value
  funext name
  apply Option.ext
  intro held
  rw [lookup_eq_some still]
  cases Decidable.em (name = key) with
  | inl same =>
      subst same
      rw [Function.update_self]
      constructor
      · rintro ⟨j, at_j⟩
        rw [getElem?_put le] at at_j
        split at at_j
        · exact congrArg some (Prod.mk.inj (Option.some.inj (Option.some.inj at_j))).2
        · exact absurd at_j (lookup_eq_none absent j held)
      · intro eq
        obtain rfl := Option.some.inj eq
        exact ⟨k, by rw [getElem?_put le, if_pos rfl]⟩
  | inr differ =>
      rw [Function.update_of_ne differ, lookup_eq_some distinct]
      constructor
      · rintro ⟨j, at_j⟩
        rw [getElem?_put le] at at_j
        split at at_j
        · exact absurd (Prod.mk.inj (Option.some.inj (Option.some.inj at_j))).1.symm differ
        · exact ⟨j, at_j⟩
      · rintro ⟨j, at_j⟩
        refine ⟨j, ?_⟩
        rw [getElem?_put le, if_neg, at_j]
        rintro rfl
        rw [free (List.getElem?_eq_some_iff.mp at_j).1] at at_j
        cases at_j

/-- A freed slot takes its key away and no other. -/
theorem lookup_free (distinct : Distinct slots) (at_k : slots[k]? = some (some (key, value))) :
    lookup (put slots k none) = Function.update (lookup slots) key none := by
  have inside := (List.getElem?_eq_some_iff.mp at_k).1
  have still := distinct.free (Nat.le_of_lt inside)
  funext name
  apply Option.ext
  intro held
  rw [lookup_eq_some still]
  cases Decidable.em (name = key) with
  | inl same =>
      subst same
      rw [Function.update_self]
      constructor
      · rintro ⟨j, at_j⟩
        rw [getElem?_put (Nat.le_of_lt inside)] at at_j
        split at at_j
        · cases at_j
        · next differ => exact absurd (distinct j k name held value at_j at_k) differ
      · intro no
        cases no
  | inr differ =>
      rw [Function.update_of_ne differ, lookup_eq_some distinct]
      constructor
      · rintro ⟨j, at_j⟩
        rw [getElem?_put (Nat.le_of_lt inside)] at at_j
        split at at_j
        · cases at_j
        · exact ⟨j, at_j⟩
      · rintro ⟨j, at_j⟩
        refine ⟨j, ?_⟩
        rw [getElem?_put (Nat.le_of_lt inside), if_neg, at_j]
        rintro rfl
        rw [at_k] at at_j
        exact differ (Prod.mk.inj (Option.some.inj (Option.some.inj at_j))).1.symm

end SlotTable
