import Mathlib.Computability.Language
import Mathlib.Data.List.ReduceOption

/-!
# grep

The program `usr/src/grep`. `matchhere` and `matchstar` decide the language that the pattern
denotes, and the loop with its buffer of 1024 bytes prints the matching lines in whatever pieces the
file is read.
-/

namespace Xv6Duo
namespace Grep

open Computability Language

/-! ## The matcher -/

/-- `'.'`. -/
def dot : UInt8 := 46

/-- `'*'`. -/
def star : UInt8 := 42

/-- `'$'`. -/
def dollar : UInt8 := 36

/-- `'^'`. -/
def caret : UInt8 := 94

/-- `'\n'`. -/
def newline : UInt8 := 10

/-- `matchstar`, for what `matchhere` says of the pattern behind the star. A string is the list of
its bytes before the NUL. -/
def matchStar (here : List UInt8 → Bool) (c : UInt8) : List UInt8 → Bool
  | [] => here []
  | t :: text => here (t :: text) || ((t == c || c == dot) && matchStar here c text)

/-- `matchhere`. -/
def matchHere : List UInt8 → List UInt8 → Bool
  | [], _ => true
  | [c], text =>
      if c = dollar then text.isEmpty
      else if text.isEmpty then false
      else c == dot || text.head? == some c
  | c :: d :: re, text =>
      if d = star then matchStar (matchHere re) c text
      else if text.isEmpty then false
      else (c == dot || text.head? == some c) && matchHere (d :: re) text.tail

/-- The loop of `match` over the places of the text. -/
def matchFrom (re : List UInt8) : List UInt8 → Bool
  | [] => matchHere re []
  | t :: text => matchHere re (t :: text) || matchFrom re text

/-- `match`. -/
def matchText (re text : List UInt8) : Bool :=
  if re.head? = some caret then matchHere re.tail text else matchFrom re text

/-! ## The language of a pattern -/

/-- A piece of a pattern. -/
inductive Item where
  /-- A character. -/
  | one (c : UInt8)
  /-- A character with a star. -/
  | star (c : UInt8)
  deriving DecidableEq

/-- A pattern: its pieces, and whether it is tied to the start and to the end of the text. -/
structure Pattern where
  /-- A leading `^`. -/
  starts : Bool
  /-- The pieces. -/
  items : List Item
  /-- A trailing `$`. -/
  ends : Bool
  deriving DecidableEq

/-- The pieces of a pattern and whether it ends with `$`. -/
def parseItems : List UInt8 → List Item × Bool
  | [] => ([], false)
  | [c] => if c = dollar then ([], true) else ([.one c], false)
  | c :: d :: re =>
      if d = star then (.star c :: (parseItems re).1, (parseItems re).2)
      else (.one c :: (parseItems (d :: re)).1, (parseItems (d :: re)).2)

/-- The pattern that a string stands for. -/
def parse (re : List UInt8) : Pattern :=
  if re.head? = some caret then
    { starts := true, items := (parseItems re.tail).1, ends := (parseItems re.tail).2 }
  else { starts := false, items := (parseItems re).1, ends := (parseItems re).2 }

/-- The texts of one byte that a character stands for. -/
def char (c : UInt8) : Language UInt8 := {text | ∃ t, text = [t] ∧ (c = dot ∨ t = c)}

/-- The language of a piece. -/
def Item.language : Item → Language UInt8
  | .one c => char c
  | .star c => (char c)∗

/-- The language of a list of pieces. -/
def language (items : List Item) : Language UInt8 := (items.map Item.language).prod

/-- Part of the text is in the language of the pattern: at its start if the pattern is tied there,
up to its end if it is tied there. -/
def Pattern.Occurs (pattern : Pattern) (text : List UInt8) : Prop :=
  ∃ before found behind, text = before ++ found ++ behind ∧ found ∈ language pattern.items ∧
    (pattern.starts = true → before = []) ∧ (pattern.ends = true → behind = [])

/-- A start of the text is in the language of the pieces, all of it if they are tied to its end. -/
def Begins (items : List Item) (ends : Bool) (text : List UInt8) : Prop :=
  ∃ found behind, text = found ++ behind ∧ found ∈ language items ∧ (ends = true → behind = [])

@[simp]
theorem language_nil : language [] = 1 := by
  rfl

@[simp]
theorem language_cons (item : Item) (items : List Item) :
    language (item :: items) = item.language * language items := by
  rw [language, List.map_cons, List.prod_cons, language]

theorem mem_char {c : UInt8} {text : List UInt8} :
    text ∈ char c ↔ ∃ t, text = [t] ∧ (c = dot ∨ t = c) :=
  Iff.rfl

/-- A star takes nothing, or one byte and then a star. -/
theorem mem_star_iff {c : UInt8} {text : List UInt8} :
    text ∈ (char c)∗ ↔
      text = [] ∨ ∃ t rest, text = t :: rest ∧ (c = dot ∨ t = c) ∧ rest ∈ (char c)∗ := by
  have unfolded : text ∈ (char c)∗ ↔ text ∈ 1 + char c * (char c)∗ := by
    rw [one_add_self_mul_kstar_eq_kstar]
  rw [unfolded, mem_add, mem_one, mem_mul]
  apply or_congr Iff.rfl
  constructor
  · rintro ⟨first, first_in, rest, rest_in, rfl⟩
    obtain ⟨t, rfl, stands⟩ := mem_char.mp first_in
    exact ⟨t, rest, rfl, stands, rest_in⟩
  · rintro ⟨t, rest, rfl, stands, rest_in⟩
    exact ⟨[t], mem_char.mpr ⟨t, rfl, stands⟩, rest, rest_in, rfl⟩

/-! ## The matcher decides the language -/

theorem begins_nil_iff {ends : Bool} {text : List UInt8} :
    Begins [] ends text ↔ (ends = true → text = []) := by
  constructor
  · rintro ⟨found, behind, rfl, found_in, all⟩ tied
    rw [language_nil, mem_one] at found_in
    rw [found_in, all tied, List.append_nil]
  · intro all
    exact ⟨[], text, rfl, rfl, all⟩

theorem begins_one_iff {c : UInt8} {items : List Item} {ends : Bool} {text : List UInt8} :
    Begins (.one c :: items) ends text ↔
      ∃ t rest, text = t :: rest ∧ (c = dot ∨ t = c) ∧ Begins items ends rest := by
  constructor
  · rintro ⟨found, behind, rfl, found_in, all⟩
    rw [language_cons, mem_mul] at found_in
    obtain ⟨first, first_in, later, later_in, rfl⟩ := found_in
    obtain ⟨t, rfl, stands⟩ := mem_char.mp first_in
    exact ⟨t, later ++ behind, rfl, stands, later, behind, rfl, later_in, all⟩
  · rintro ⟨t, rest, rfl, stands, found, behind, rfl, found_in, all⟩
    refine ⟨t :: found, behind, rfl, ?_, all⟩
    rw [language_cons]
    exact append_mem_mul (mem_char.mpr ⟨t, rfl, stands⟩) found_in

theorem begins_star_iff {c : UInt8} {items : List Item} {ends : Bool} {text : List UInt8} :
    Begins (.star c :: items) ends text ↔ Begins items ends text ∨
      ∃ t rest, text = t :: rest ∧ (c = dot ∨ t = c) ∧ Begins (.star c :: items) ends rest := by
  constructor
  · rintro ⟨found, behind, rfl, found_in, all⟩
    rw [language_cons, mem_mul] at found_in
    obtain ⟨taken, taken_in, later, later_in, rfl⟩ := found_in
    rcases mem_star_iff.mp taken_in with rfl | ⟨t, rest, rfl, stands, rest_in⟩
    · exact Or.inl ⟨later, behind, rfl, later_in, all⟩
    · refine Or.inr ⟨t, rest ++ later ++ behind, rfl, stands, rest ++ later, behind, rfl, ?_, all⟩
      rw [language_cons]
      exact append_mem_mul rest_in later_in
  · rintro (⟨found, behind, rfl, found_in, all⟩ | ⟨t, rest, rfl, stands, found, behind, rfl,
      found_in, all⟩)
    · refine ⟨found, behind, rfl, ?_, all⟩
      rw [language_cons, ← List.nil_append found]
      exact append_mem_mul (nil_mem_kstar _) found_in
    · rw [language_cons, mem_mul] at found_in
      obtain ⟨taken, taken_in, later, later_in, rfl⟩ := found_in
      refine ⟨t :: taken ++ later, behind, rfl, ?_, all⟩
      rw [language_cons]
      exact append_mem_mul (mem_star_iff.mpr (Or.inr ⟨t, taken, rfl, stands, taken_in⟩)) later_in

theorem matchStar_iff {here : List UInt8 → Bool} {c : UInt8} {items : List Item} {ends : Bool}
    (decides : ∀ text, here text = true ↔ Begins items ends text) (text : List UInt8) :
    matchStar here c text = true ↔ Begins (.star c :: items) ends text := by
  induction text with
  | nil =>
      rw [matchStar, decides, begins_star_iff]
      simp
  | cons t text ih =>
      rw [matchStar, begins_star_iff, ← decides, Bool.or_eq_true, Bool.and_eq_true, ih]
      apply or_congr Iff.rfl
      constructor
      · rintro ⟨stands, more⟩
        refine ⟨t, text, rfl, ?_, more⟩
        simpa [or_comm] using stands
      · rintro ⟨_, _, same, stands, more⟩
        cases same
        refine ⟨?_, more⟩
        simpa [or_comm] using stands

/-- `matchhere` decides whether the text begins with the pattern. -/
theorem matchHere_iff (re text : List UInt8) :
    matchHere re text = true ↔ Begins (parseItems re).1 (parseItems re).2 text := by
  induction re using parseItems.induct generalizing text with
  | case1 => simp [matchHere, parseItems, begins_nil_iff]
  | case2 => simp [matchHere, parseItems, begins_nil_iff]
  | case3 c notEnd =>
      cases text with
      | nil => simp [matchHere, parseItems, begins_one_iff, notEnd]
      | cons t text =>
          simp [matchHere, parseItems, begins_one_iff, begins_nil_iff, notEnd]
  | case4 c re ih =>
      rw [matchHere, if_pos rfl, parseItems, if_pos rfl]
      exact matchStar_iff ih text
  | case5 c d re notStar ih =>
      rw [matchHere, if_neg notStar, parseItems, if_neg notStar]
      cases text with
      | nil => simp [begins_one_iff]
      | cons t text => simp [begins_one_iff, ih]

theorem matchFrom_iff (re text : List UInt8) :
    matchFrom re text = true ↔
      ∃ before rest, text = before ++ rest ∧ matchHere re rest = true := by
  induction text with
  | nil => simp [matchFrom]
  | cons t text ih =>
      rw [matchFrom, Bool.or_eq_true, ih]
      constructor
      · rintro (found | ⟨before, rest, rfl, found⟩)
        · exact ⟨[], t :: text, rfl, found⟩
        · exact ⟨t :: before, rest, rfl, found⟩
      · rintro ⟨before, rest, split, found⟩
        cases before with
        | nil =>
            rw [List.nil_append] at split
            exact Or.inl (split ▸ found)
        | cons b before =>
            cases split
            exact Or.inr ⟨before, rest, rfl, found⟩

/-- `match` answers 1 exactly if the pattern occurs in the text. -/
theorem matchText_iff (re text : List UInt8) :
    matchText re text = true ↔ (parse re).Occurs text := by
  rw [matchText, parse]
  split
  · rw [matchHere_iff]
    constructor
    · rintro ⟨found, behind, rfl, found_in, all⟩
      exact ⟨[], found, behind, rfl, found_in, fun _ => rfl, all⟩
    · rintro ⟨before, found, behind, rfl, found_in, atStart, all⟩
      rw [atStart rfl, List.nil_append]
      exact ⟨found, behind, rfl, found_in, all⟩
  · rw [matchFrom_iff]
    constructor
    · rintro ⟨before, rest, rfl, matched⟩
      obtain ⟨found, behind, rfl, found_in, all⟩ := (matchHere_iff re rest).mp matched
      refine ⟨before, found, behind, (List.append_assoc _ _ _).symm, found_in, ?_, all⟩
      intro tied
      cases tied
    · rintro ⟨before, found, behind, rfl, found_in, -, all⟩
      refine ⟨before, found ++ behind, List.append_assoc _ _ _, ?_⟩
      exact (matchHere_iff re _).mpr ⟨found, behind, rfl, found_in, all⟩

/-! ## The buffer -/

/-- `sizeof(buf)`. -/
def bufSize : Nat := 1024

/-- `strchr`: what stands before the first `c`, and what stands behind it. The end of the list is
the NUL behind the string; a NUL before it ends the search as well. -/
def strchr (c : UInt8) : List UInt8 → Option (List UInt8 × List UInt8)
  | [] => none
  | b :: s =>
      if b = c then some ([], s)
      else if b = 0 then none
      else (strchr c s).map fun found => (b :: found.1, found.2)

theorem strchr_eq_some {c : UInt8} {s : List UInt8} {r : List UInt8 × List UInt8}
    (found : strchr c s = some r) : s = r.1 ++ c :: r.2 ∧ c ∉ r.1 ∧ 0 ∉ r.1 := by
  induction s generalizing r with
  | nil => cases found
  | cons b s ih =>
      rw [strchr] at found
      split at found
      · next same =>
          cases found
          exact ⟨congrArg (· :: s) same, List.not_mem_nil, List.not_mem_nil⟩
      · next other =>
          split at found
          · cases found
          · next nonzero =>
              obtain ⟨later, later_found, rfl⟩ := Option.map_eq_some_iff.mp found
              obtain ⟨split, no_c, no_nul⟩ := ih later_found
              refine ⟨congrArg (b :: ·) split, ?_, ?_⟩
              · exact List.not_mem_cons_of_ne_of_not_mem (Ne.symm other) no_c
              · exact List.not_mem_cons_of_ne_of_not_mem (Ne.symm nonzero) no_nul

theorem strchr_eq_none {c : UInt8} {s : List UInt8} (missing : strchr c s = none) :
    c ∉ s ∨ ∃ front behind, s = front ++ behind ∧ c ∉ front ∧ 0 ∈ front := by
  induction s with
  | nil => exact Or.inl List.not_mem_nil
  | cons b s ih =>
      rw [strchr] at missing
      split at missing
      · cases missing
      · next other =>
          split at missing
          · next zero =>
              refine Or.inr ⟨[b], s, rfl, ?_, ?_⟩
              · exact List.not_mem_cons_of_ne_of_not_mem (Ne.symm other) List.not_mem_nil
              · rw [zero]
                exact List.mem_cons_self
          · rcases ih (Option.map_eq_none_iff.mp missing) with no_c | ⟨front, behind, rfl,
              no_c, nul⟩
            · exact Or.inl (List.not_mem_cons_of_ne_of_not_mem (Ne.symm other) no_c)
            · refine Or.inr ⟨b :: front, behind, rfl, ?_, List.mem_cons_of_mem b nul⟩
              exact List.not_mem_cons_of_ne_of_not_mem (Ne.symm other) no_c

theorem length_strchr {c : UInt8} {s : List UInt8} {r : List UInt8 × List UInt8}
    (found : strchr c s = some r) : r.2.length < s.length := by
  rw [(strchr_eq_some found).1, List.length_append, List.length_cons]
  omega

/-- The inner loop of `grep`: what it writes, and what is left in the buffer from `p` on. -/
def scan (pattern text : List UInt8) : List UInt8 × List UInt8 :=
  match _ : strchr newline text with
  | none => ([], text)
  | some r =>
      let later := scan pattern r.2
      (if matchText pattern r.1 then r.1 ++ [newline] ++ later.1 else later.1, later.2)
termination_by text.length
decreasing_by exact length_strchr ‹_›

/-- A file that is read: its bytes, and how many of the bytes that are still to come a read finds,
less one. -/
structure Input where
  /-- The bytes. -/
  data : List UInt8
  /-- The bytes that a read finds, less one. -/
  ready : List UInt8 → Nat

/-- The bytes that `read` stores, for a given room. -/
def readSize (ready : List UInt8 → Nat) (room : Nat) (data : List UInt8) : Nat :=
  min (min room data.length) (ready data + 1)

theorem length_drop_readSize {ready : List UInt8 → Nat} {room : Nat} {data : List UInt8}
    (some_read : readSize ready room data ≠ 0) :
    (data.drop (readSize ready room data)).length < data.length := by
  rw [List.length_drop]
  have bound : readSize ready room data ≤ data.length :=
    le_trans (min_le_left _ _) (min_le_right _ _)
  omega

/-- The loop of `grep` with `kept` at the start of the buffer: what it writes. -/
def grepLoop (pattern : List UInt8) (ready : List UInt8 → Nat) (kept data : List UInt8) :
    List UInt8 :=
  let n := readSize ready (bufSize - kept.length - 1) data
  if _ : n ≠ 0 then
    let scanned := scan pattern (kept ++ data.take n)
    scanned.1 ++ grepLoop pattern ready scanned.2 (data.drop n)
  else []
termination_by data.length
decreasing_by exact length_drop_readSize ‹_›

/-- `grep`. -/
def grep (pattern : List UInt8) (input : Input) : List UInt8 :=
  grepLoop pattern input.ready [] input.data

/-- The loop of `main` over the files, of which those that cannot be opened are `none`: what is
written to the standard output, and the exit status. -/
def grepFiles (pattern : List UInt8) : List (Option Input) → List UInt8 × Nat
  | [] => ([], 0)
  | none :: _ => ([], 1)
  | some input :: files =>
      (grep pattern input ++ (grepFiles pattern files).1, (grepFiles pattern files).2)

/-- `main`, for the arguments behind the name of the program. -/
def main (stdin : Input) : Option (List UInt8) → List (Option Input) → List UInt8 × Nat
  | none, _ => ([], 1)
  | some pattern, [] => (grep pattern stdin, 0)
  | some pattern, files => grepFiles pattern files

/-! ## What is printed -/

/-- The lines of a file that end with a newline. -/
def lines (data : List UInt8) : List (List UInt8) := (data.splitOn newline).dropLast

/-- A line that the buffer holds with its newline, and that `strchr` passes. -/
def Fits (line : List UInt8) : Prop := line.length + 1 < bufSize ∧ 0 ∉ line

instance (line : List UInt8) : Decidable (Fits line) := inferInstanceAs (Decidable (_ ∧ _))

/-- The matching lines before the first line that does not fit, each with its newline. -/
def printed (pattern data : List UInt8) : List UInt8 :=
  (((lines data).takeWhile (Fits ·)).filter (matchText pattern ·)).flatMap (· ++ [newline])

theorem lines_of_not_mem {data : List UInt8} (unended : newline ∉ data) : lines data = [] := by
  rw [lines, List.splitOn_eq_singleton unended]
  rfl

theorem lines_append_cons {line : List UInt8} (one : newline ∉ line) (rest : List UInt8) :
    lines (line ++ newline :: rest) = line :: lines rest := by
  rw [lines, List.splitOn_append_cons_self_of_not_mem one,
    List.dropLast_cons_of_ne_nil (List.splitOn_ne_nil _ _), lines]

theorem printed_append_cons {pattern line : List UInt8} (one : newline ∉ line) (fits : Fits line)
    (rest : List UInt8) :
    printed pattern (line ++ newline :: rest) =
      (if matchText pattern line then line ++ [newline] else []) ++ printed pattern rest := by
  rw [printed, lines_append_cons one, List.takeWhile_cons_of_pos (by simpa using fits)]
  by_cases matched : matchText pattern line = true
  · rw [List.filter_cons_of_pos matched, List.flatMap_cons, if_pos matched, printed]
  · rw [List.filter_cons_of_neg matched, if_neg matched, List.nil_append, printed]

/-- Nothing is printed of a file that begins with a line that does not fit. -/
theorem printed_stuck {pattern front : List UInt8} (one : newline ∉ front)
    (unfit : ¬ Fits front) (more : List UInt8) : printed pattern (front ++ more) = [] := by
  by_cases ended : newline ∈ more
  · obtain ⟨behind, rest, rfl, no_newline⟩ := List.eq_append_cons_of_mem ended
    have first : newline ∉ front ++ behind := by
      rw [List.mem_append]
      exact not_or.mpr ⟨one, no_newline⟩
    have longer : ¬ Fits (front ++ behind) := by
      rintro ⟨room, no_nul⟩
      apply unfit
      rw [List.length_append] at room
      exact ⟨by omega, fun nul => no_nul (List.mem_append_left behind nul)⟩
    rw [printed, ← List.append_assoc, lines_append_cons first,
      List.takeWhile_cons_of_neg (by simpa using longer)]
    rfl
  · rw [printed, lines_of_not_mem (by simp [one, ended])]
    rfl

/-- The inner loop prints what stands in the buffer. -/
theorem scan_spec (pattern text rest : List UInt8) (room : text.length < bufSize) :
    printed pattern (text ++ rest) =
        (scan pattern text).1 ++ printed pattern ((scan pattern text).2 ++ rest) ∧
      strchr newline (scan pattern text).2 = none ∧ (scan pattern text).2.length ≤ text.length := by
  induction text using scan.induct pattern with
  | case1 text missing =>
      have plain : scan pattern text = ([], text) := by
        rw [scan]
        split
        · rfl
        · next found =>
            rw [missing] at found
            cases found
      rw [plain]
      exact ⟨rfl, missing, le_refl _⟩
  | case2 text r found ih =>
      obtain ⟨split, one, no_nul⟩ := strchr_eq_some found
      have shorter := length_strchr found
      obtain ⟨prints, missing, small⟩ := ih (by omega)
      have line_room : r.1.length + 1 < bufSize := by
        rw [split, List.length_append, List.length_cons] at room
        omega
      have scanned : scan pattern text =
          ((if matchText pattern r.1 then r.1 ++ [newline] else []) ++ (scan pattern r.2).1,
            (scan pattern r.2).2) := by
        rw [scan]
        split
        · next missing =>
            rw [missing] at found
            cases found
        · next again =>
            cases found.symm.trans again
            split <;> simp
      rw [scanned]
      refine ⟨?_, missing, small.trans shorter.le⟩
      conv_lhs => rw [split]
      rw [List.append_assoc, List.cons_append, printed_append_cons one ⟨line_room, no_nul⟩, prints,
        List.append_assoc]

/-- Nothing more is printed when a read stores nothing. -/
theorem printed_stopped {pattern kept data : List UInt8} (missing : strchr newline kept = none)
    (stopped : data = [] ∨ bufSize ≤ kept.length + 1) : printed pattern (kept ++ data) = [] := by
  rcases strchr_eq_none missing with one | ⟨front, behind, rfl, one, nul⟩
  · rcases stopped with rfl | full
    · rw [List.append_nil, printed, lines_of_not_mem one]
      rfl
    · apply printed_stuck one
      rintro ⟨room, -⟩
      omega
  · rw [List.append_assoc]
    apply printed_stuck one
    rintro ⟨-, no_nul⟩
    exact no_nul nul

theorem grepLoop_eq (pattern : List UInt8) (ready : List UInt8 → Nat) (kept data : List UInt8)
    (missing : strchr newline kept = none) (room : kept.length < bufSize) :
    grepLoop pattern ready kept data = printed pattern (kept ++ data) := by
  induction kept, data using grepLoop.induct pattern ready with
  | case1 kept data n some_read scanned ih =>
      have bounds : n ≤ bufSize - kept.length - 1 ∧ n ≤ data.length :=
        ⟨(min_le_left _ _).trans (min_le_left _ _), (min_le_left _ _).trans (min_le_right _ _)⟩
      have filled : (kept ++ data.take n).length < bufSize := by
        rw [List.length_append, List.length_take]
        omega
      obtain ⟨prints, still_missing, small⟩ :=
        scan_spec pattern (kept ++ data.take n) (data.drop n) filled
      have later := ih still_missing (small.trans_lt filled)
      rw [List.append_assoc, List.take_append_drop, ← later] at prints
      rw [grepLoop, dif_pos some_read]
      exact prints.symm
  | case2 kept data n none_read =>
      rw [grepLoop, dif_neg none_read]
      refine (printed_stopped missing ?_).symm
      by_cases used_up : data = []
      · exact Or.inl used_up
      · have some_data := List.length_pos_iff.mpr used_up
        have zero : min (min (bufSize - kept.length - 1) data.length) (ready data + 1) = 0 :=
          not_not.mp none_read
        exact Or.inr (by omega)

theorem grep_eq (pattern : List UInt8) (input : Input) :
    grep pattern input = printed pattern input.data :=
  grepLoop_eq pattern input.ready [] input.data rfl (by decide)

theorem grepFiles_eq (pattern : List UInt8) (files : List (Option Input)) :
    grepFiles pattern files =
      ((files.takeWhile Option.isSome).reduceOption.flatMap fun input => printed pattern input.data,
        if files.all Option.isSome then 0 else 1) := by
  induction files with
  | nil => rfl
  | cons file files ih =>
      cases file with
      | none => rfl
      | some input =>
          rw [grepFiles, ih, grep_eq, List.takeWhile_cons_of_pos rfl,
            List.reduceOption_cons_of_some,
            List.flatMap_cons, List.all_cons, Option.isSome_some, Bool.true_and]

/-- In whatever pieces the files are read, `main` prints the matching lines of each file up to the
first that cannot be opened: of the lines that end with a newline, those before the first one that
does not fit. -/
theorem main_eq (stdin : Input) (pattern : List UInt8) (files : List (Option Input)) :
    main stdin (some pattern) files =
      if files = [] then (printed pattern stdin.data, 0)
      else
        ((files.takeWhile Option.isSome).reduceOption.flatMap fun input =>
            printed pattern input.data,
          if files.all Option.isSome then 0 else 1) := by
  cases files with
  | nil => exact congrArg (·, 0) (grep_eq pattern stdin)
  | cons file files => exact grepFiles_eq pattern (file :: files)

end Grep
end Xv6Duo
