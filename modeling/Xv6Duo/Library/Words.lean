import Mathlib.Data.List.DropRight
import Mathlib.Tactic

/-!
# Words between separators

A list over an alphabet with one separator is a sequence of words: the maximal nonempty runs of
other symbols. A scanner that skips separators, takes symbols up to the next separator and skips
separators again reads one word and leaves the others.
-/

namespace Words

variable {α : Type*} [DecidableEq α] {sep : α}

/-- The nonempty runs between separators. -/
def words (sep : α) (l : List α) : List (List α) := (l.splitOn sep).filter (· ≠ [])

/-- The first word and what follows it, without the separators between the two. -/
def next (sep : α) (l : List α) : Option (List α × List α) :=
  match l.dropWhile (· = sep) with
  | [] => none
  | first :: rest => some ((first :: rest).takeWhile (· ≠ sep),
      ((first :: rest).dropWhile (· ≠ sep)).dropWhile (· = sep))

theorem words_nil : words sep [] = [] := by simp [words]

theorem words_sep_cons (l : List α) : words sep (sep :: l) = words sep l := by
  rw [words, List.splitOn_cons_eq_if_modifyHead, if_pos (beq_self_eq_true sep),
    List.filter_cons_of_neg (by simp)]
  rfl

/-- Separators in front make no word. -/
theorem words_dropWhile (l : List α) : words sep (l.dropWhile (· = sep)) = words sep l := by
  induction l with
  | nil => rfl
  | cons first rest ih =>
      cases Decidable.em (first = sep) with
      | inl is_sep =>
          rw [List.dropWhile_cons_of_pos (by simpa using is_sep), ih, is_sep, words_sep_cons]
      | inr other => rw [List.dropWhile_cons_of_neg (by simpa using other)]

/-- A run up to a separator is a word. -/
theorem words_append {run : List α} (clean : sep ∉ run) (some_symbol : run ≠ []) (rest : List α)
    (ends : rest = [] ∨ rest.head? = some sep) :
    words sep (run ++ rest) = run :: words sep rest := by
  cases rest with
  | nil =>
      rw [List.append_nil, words_nil, words, List.splitOn_eq_singleton clean,
        List.filter_cons_of_pos (by simpa using some_symbol), List.filter_nil]
  | cons first rest =>
      have is_sep : first = sep := by simpa using ends
      rw [is_sep, words_sep_cons, words, List.splitOn_append_cons_self_of_not_mem clean,
        List.filter_cons_of_pos (by simpa using some_symbol)]
      rfl

/-- A run of other symbols ends at a separator or with the list. -/
theorem head_dropWhile (l : List α) :
    l.dropWhile (· ≠ sep) = [] ∨ (l.dropWhile (· ≠ sep)).head? = some sep := by
  cases rest : l.dropWhile (· ≠ sep) with
  | nil => exact Or.inl rfl
  | cons first others =>
      have some_symbol : l.dropWhile (· ≠ sep) ≠ [] := by
        rw [rest]
        exact List.cons_ne_nil _ _
      have stops := List.head_dropWhile_not _ some_symbol
      simp only [rest, List.head_cons] at stops
      exact Or.inr (congrArg some (by simpa using stops))

theorem not_mem_takeWhile (l : List α) : sep ∉ l.takeWhile (· ≠ sep) := by
  intro mem
  have other := List.mem_takeWhile_imp mem
  simp at other

/-- A list that separators were dropped from starts with another symbol. -/
theorem first_ne {l rest : List α} {first : α} (start : l.dropWhile (· = sep) = first :: rest) :
    first ≠ sep := by
  have some_symbol : l.dropWhile (· = sep) ≠ [] := by
    rw [start]
    exact List.cons_ne_nil _ _
  have stops := List.head_dropWhile_not _ some_symbol
  simpa only [start, List.head_cons, decide_eq_false_iff_not] using stops

/-- A list that starts with another symbol starts with a word. -/
theorem words_first {first : α} (other : first ≠ sep) (rest : List α) :
    words sep (first :: rest) =
      (first :: rest).takeWhile (· ≠ sep) :: words sep ((first :: rest).dropWhile (· ≠ sep)) := by
  have some_symbol : (first :: rest).takeWhile (· ≠ sep) ≠ [] := by
    rw [List.takeWhile_cons_of_pos (by simpa using other)]
    exact List.cons_ne_nil _ _
  rw [← words_append (not_mem_takeWhile _) some_symbol _ (head_dropWhile _),
    List.takeWhile_append_dropWhile]

/-- The scanner finds nothing if and only if there is no word. -/
theorem next_eq_none (l : List α) : next sep l = none ↔ words sep l = [] := by
  rw [next, ← words_dropWhile l]
  cases start : l.dropWhile (· = sep) with
  | nil => simp [words_nil]
  | cons first rest =>
      rw [words_first (first_ne start)]
      simp

/-- The scanner reads the first word and leaves the others. -/
theorem words_of_next {l word rest : List α} (found : next sep l = some (word, rest)) :
    words sep l = word :: words sep rest := by
  rw [next] at found
  rw [← words_dropWhile l]
  cases start : l.dropWhile (· = sep) with
  | nil =>
      rw [start] at found
      cases found
  | cons first others =>
      rw [start] at found
      obtain ⟨rfl, rfl⟩ := Prod.mk.inj (Option.some.inj found)
      rw [words_dropWhile, words_first (first_ne start)]

/-- The scanner splits the list. -/
theorem subset_of_next {l word rest : List α} (found : next sep l = some (word, rest)) :
    word ⊆ l ∧ rest ⊆ l := by
  rw [next] at found
  cases start : l.dropWhile (· = sep) with
  | nil =>
      rw [start] at found
      cases found
  | cons first others =>
      rw [start] at found
      obtain ⟨rfl, rfl⟩ := Prod.mk.inj (Option.some.inj found)
      rw [← start]
      have inside := (List.dropWhile_sublist (l := l) (· = sep)).subset
      constructor
      · exact fun x mem => inside ((List.takeWhile_sublist _).subset mem)
      · exact fun x mem =>
          inside ((List.dropWhile_sublist _).subset ((List.dropWhile_sublist _).subset mem))

/-- What the scanner leaves is empty if it has no word. -/
theorem words_rest_eq_nil {l word rest : List α} (found : next sep l = some (word, rest)) :
    words sep rest = [] ↔ rest = [] := by
  rw [next] at found
  rw [← next_eq_none, next]
  split at found
  · cases found
  · obtain ⟨-, rfl⟩ := Prod.mk.inj (Option.some.inj found)
    rw [List.dropWhile_idempotent]
    cases List.dropWhile (· = sep) _ with
    | nil => simp
    | cons first rest => simp

end Words
