import Mathlib.Data.List.GetD
import Mathlib.Data.List.TakeWhile
import Xv6Duo.Usr.Mysh.Model

/-!
# The tokens of a line

The line as the list of its tokens, and what `peek` and `gettoken` say about that list.
-/

namespace Xv6Duo
namespace Mysh

open ByteBlock (CString)

/-! ## Skipping -/

theorem drop_skip (p : UInt8 → Bool) (line : List UInt8) (s : Nat) :
    line.drop (skip p line s) = (line.drop s).dropWhile p := by
  rw [skip, ← List.drop_drop]
  generalize line.drop s = rest
  have split := List.takeWhile_append_dropWhile (p := p) (l := rest)
  calc
    rest.drop (rest.takeWhile p).length =
        (rest.takeWhile p ++ rest.dropWhile p).drop (rest.takeWhile p).length := by rw [split]
    _ = rest.dropWhile p := List.drop_left

theorem le_skip (p : UInt8 → Bool) (line : List UInt8) (s : Nat) : s ≤ skip p line s :=
  Nat.le_add_right _ _

theorem skip_le {p : UInt8 → Bool} {line : List UInt8} {s : Nat} (inside : s ≤ line.length) :
    skip p line s ≤ line.length := by
  have short := (List.takeWhile_prefix p (l := line.drop s)).length_le
  rw [List.length_drop] at short
  rw [skip]
  omega

theorem skip_skip (p : UInt8 → Bool) (line : List UInt8) (s : Nat) :
    skip p line (skip p line s) = skip p line s := by
  rw [skip, drop_skip]
  generalize line.drop s = rest
  have stopped := List.head?_dropWhile_not p rest
  cases more : rest.dropWhile p with
  | nil => rfl
  | cons b later =>
      rw [more] at stopped
      rw [List.takeWhile_cons_of_neg (by simpa using stopped), List.length_nil, Nat.add_zero]

theorem byte_eq (line : List UInt8) (s : Nat) : byte line s = (line.drop s).headD 0 := by
  rw [byte, List.headD_eq_head?_getD, List.head?_drop, List.getD_eq_getElem?_getD]

theorem byte_skip (p : UInt8 → Bool) (line : List UInt8) (s : Nat) :
    byte line (skip p line s) = 0 ∨ p (byte line (skip p line s)) = false := by
  rw [byte_eq, drop_skip]
  cases rest : (line.drop s).dropWhile p with
  | nil => exact Or.inl rfl
  | cons b later =>
      right
      have stopped := List.head?_dropWhile_not p (line.drop s)
      rw [rest] at stopped
      simpa using stopped

theorem lt_of_byte {line : List UInt8} {s : Nat} (nonzero : byte line s ≠ 0) :
    s < line.length := by
  by_contra beyond
  apply nonzero
  rw [byte, List.getD_eq_default _ _ (by omega)]

theorem byte_ne_zero (line : CString) {s : Nat} (inside : s < line.chars.length) :
    byte line.chars s ≠ 0 := by
  intro zero
  apply line.nonzero
  rw [byte, List.getD_eq_getElem _ _ inside] at zero
  rw [← zero]
  exact List.getElem_mem inside

/-- A byte that starts a word, where no space stands. -/
theorem inWord_of_not_symbol {b : UInt8} (space : whitespace.contains b = false)
    (single : b ∉ [bar, left, right, semi, amp, less]) (other : b ≠ greater) :
    inWord b = true := by
  have no_symbol : b ∉ symbols := by
    simp only [symbols, List.mem_cons, List.not_mem_nil, or_false, not_or] at single ⊢
    exact ⟨single.2.2.2.2.2, single.1, other, single.2.2.2.2.1, single.2.2.2.1, single.2.1,
      single.2.2.1⟩
  rw [inWord, space, Bool.not_false, Bool.true_and, Bool.not_eq_true', List.contains_eq_mem,
    decide_eq_false no_symbol]

theorem lt_skip {p : UInt8 → Bool} {line : List UInt8} {s : Nat} (inside : s < line.length)
    (holds : p (byte line s) = true) : s < skip p line s := by
  rw [byte, List.getD_eq_getElem _ _ inside] at holds
  rw [skip, List.drop_eq_getElem_cons inside, List.takeWhile_cons_of_pos holds, List.length_cons]
  omega

/-! ## One token -/

theorem scan_zero {line : List UInt8} {s : Nat} (zero : byte line s = 0) :
    scan line s = (0, s) := by
  rw [scan, if_pos zero, zero]

theorem scan_single {line : List UInt8} {s : Nat}
    (single : byte line s ∈ [bar, left, right, semi, amp, less]) :
    scan line s = (byte line s, s + 1) := by
  have nonzero : byte line s ≠ 0 := by
    intro zero
    rw [zero] at single
    revert single
    decide
  rw [scan, if_neg nonzero, if_pos single]

theorem scan_word {line : List UInt8} {s : Nat} (nonzero : byte line s ≠ 0)
    (single : byte line s ∉ [bar, left, right, semi, amp, less]) (other : byte line s ≠ greater) :
    scan line s = (word, skip inWord line s) := by
  rw [scan, if_neg nonzero, if_neg single, if_neg other]

/-- What `scan` returns and the byte that it starts at. -/
theorem scan_ret (line : List UInt8) (s : Nat) :
    (byte line s = 0 ∧ (scan line s).1 = 0) ∨
      (byte line s ∈ [bar, left, right, semi, amp, less] ∧ (scan line s).1 = byte line s) ∨
      (byte line s = greater ∧ ((scan line s).1 = greater ∨ (scan line s).1 = plus)) ∨
      (byte line s ∉ symbols ∧ byte line s ≠ 0 ∧ (scan line s).1 = word) := by
  by_cases zero : byte line s = 0
  · exact Or.inl ⟨zero, by rw [scan_zero zero]⟩
  · by_cases single : byte line s ∈ [bar, left, right, semi, amp, less]
    · exact Or.inr (Or.inl ⟨single, by rw [scan_single single]⟩)
    · by_cases other : byte line s = greater
      · refine Or.inr (Or.inr (Or.inl ⟨other, ?_⟩))
        rw [scan, if_neg zero, if_neg single, if_pos other]
        split
        · exact Or.inr rfl
        · exact Or.inl other
      · refine Or.inr (Or.inr (Or.inr ⟨?_, zero, by rw [scan_word zero single other]⟩))
        simp only [symbols, List.mem_cons, List.not_mem_nil, or_false, not_or] at single ⊢
        exact ⟨single.2.2.2.2.2, single.1, other, single.2.2.2.2.1, single.2.2.2.1, single.2.1,
          single.2.2.1⟩

theorem scan_bounds {line : List UInt8} {s : Nat} (nonzero : byte line s ≠ 0)
    (space : whitespace.contains (byte line s) = false) :
    s < (scan line s).2 ∧ (scan line s).2 ≤ line.length := by
  have inside := lt_of_byte nonzero
  by_cases single : byte line s ∈ [bar, left, right, semi, amp, less]
  · rw [scan_single single]
    exact ⟨Nat.lt_succ_self s, inside⟩
  · by_cases other : byte line s = greater
    · rw [scan, if_neg nonzero, if_neg single, if_pos other]
      split
      · next again =>
          have second : s + 1 < line.length := lt_of_byte (by rw [again]; decide)
          exact ⟨by simp, second⟩
      · exact ⟨Nat.lt_succ_self s, inside⟩
    · rw [scan_word nonzero single other]
      exact ⟨lt_skip inside (inWord_of_not_symbol space single other), skip_le inside.le⟩

/-- The place behind the white space that `peek` and `gettoken` skip. -/
abbrev start (line : List UInt8) (s : Nat) : Nat := skip whitespace.contains line s

theorem start_space {line : List UInt8} {s : Nat} (nonzero : byte line (start line s) ≠ 0) :
    whitespace.contains (byte line (start line s)) = false :=
  (byte_skip _ line s).resolve_left nonzero

theorem gettoken_start (line : List UInt8) (s : Nat) :
    gettoken line (start line s) = gettoken line s := by
  simp only [gettoken, start, skip_skip]

theorem gettoken_ret_eq_zero {line : List UInt8} {s : Nat} :
    (gettoken line s).1.ret = 0 ↔ byte line (start line s) = 0 := by
  constructor
  · intro ended
    rcases scan_ret line (start line s) with ⟨zero, -⟩ | ⟨single, same⟩ | ⟨-, ret⟩ | ⟨-, -, ret⟩
    · exact zero
    · exact same.symm.trans ended
    · rcases ret with ret | ret <;> exact absurd (ret.symm.trans ended) (by decide)
    · exact absurd (ret.symm.trans ended) (by decide)
  · intro zero
    exact congrArg Prod.fst (scan_zero zero)

theorem gettoken_ended {line : List UInt8} {s : Nat} (ended : (gettoken line s).1.ret = 0) :
    (gettoken line s).2 = start line s := by
  change skip whitespace.contains line (scan line (start line s)).2 = start line s
  rw [scan_zero (gettoken_ret_eq_zero.mp ended)]
  exact skip_skip _ line s

theorem gettoken_bounds {line : List UInt8} {s : Nat} (more : (gettoken line s).1.ret ≠ 0) :
    start line s < (gettoken line s).1.text.eq ∧ (gettoken line s).1.text.eq ≤ line.length := by
  have nonzero := mt gettoken_ret_eq_zero.mpr more
  exact scan_bounds nonzero (start_space nonzero)

theorem gettoken_later {line : List UInt8} {s : Nat} (more : (gettoken line s).1.ret ≠ 0) :
    s < (gettoken line s).2 ∧ (gettoken line s).2 ≤ line.length := by
  obtain ⟨lower, upper⟩ := gettoken_bounds more
  have first := le_skip whitespace.contains line s
  have last := le_skip whitespace.contains line (gettoken line s).1.text.eq
  exact ⟨first.trans_lt (lower.trans_le last), skip_le upper⟩

/-! ## The list of tokens -/

/-- The tokens from a place on. -/
def tokens (line : List UInt8) (s : Nat) : List (Token Span) :=
  if _ : (gettoken line s).1.ret = 0 then []
  else (gettoken line s).1 :: tokens line (gettoken line s).2
termination_by line.length - s
decreasing_by
  have later := gettoken_later ‹_›
  omega

theorem tokens_nil {line : List UInt8} {s : Nat} (ended : (gettoken line s).1.ret = 0) :
    tokens line s = [] := by
  rw [tokens, dif_pos ended]

theorem tokens_cons {line : List UInt8} {s : Nat} (more : (gettoken line s).1.ret ≠ 0) :
    tokens line s = (gettoken line s).1 :: tokens line (gettoken line s).2 := by
  rw [tokens, dif_neg more]

theorem tokens_eq_nil_iff {line : List UInt8} {s : Nat} :
    tokens line s = [] ↔ (gettoken line s).1.ret = 0 := by
  constructor
  · intro empty
    by_contra more
    rw [tokens_cons more] at empty
    cases empty
  · exact tokens_nil

theorem gettoken_of_tokens {line : List UInt8} {s : Nat} {t : Token Span}
    {ts : List (Token Span)} (list : tokens line s = t :: ts) :
    (gettoken line s).1 = t ∧ tokens line (gettoken line s).2 = ts ∧ t.ret ≠ 0 := by
  have more : (gettoken line s).1.ret ≠ 0 := by
    intro ended
    rw [tokens_nil ended] at list
    cases list
  rw [tokens_cons more] at list
  cases list
  exact ⟨rfl, rfl, more⟩

theorem tokens_start (line : List UInt8) (s : Nat) :
    tokens line (start line s) = tokens line s := by
  by_cases ended : (gettoken line s).1.ret = 0
  · rw [tokens_nil ended, tokens_nil (by rwa [gettoken_start])]
  · rw [tokens_cons ended, tokens_cons (by rwa [gettoken_start]), gettoken_start]

@[simp]
theorem tokens_peek (line : List UInt8) (s : Nat) (toks : List UInt8) :
    tokens line (peek line s toks).2 = tokens line s :=
  tokens_start line s

theorem length_tokens_le (line : List UInt8) (s : Nat) :
    (tokens line s).length ≤ line.length - s := by
  induction s using tokens.induct line with
  | case1 s ended => simp [tokens_nil ended]
  | case2 s more ih =>
      have later := gettoken_later more
      rw [tokens_cons more, List.length_cons]
      omega

/-- What `peek` says of symbols: whether the next token starts with one of them. -/
theorem peek_iff {line : List UInt8} {s : Nat} {toks : List UInt8} (all : toks ⊆ symbols) :
    (peek line s toks).1 = true ↔
      ∃ t ts, tokens line s = t :: ts ∧ (t.ret ∈ toks ∨ t.ret = plus ∧ greater ∈ toks) := by
  have value : (peek line s toks).1 = true ↔
      byte line (start line s) ≠ 0 ∧ byte line (start line s) ∈ toks := by
    simp [peek]
  rw [value]
  constructor
  · rintro ⟨nonzero, found⟩
    have more := mt gettoken_ret_eq_zero.mp nonzero
    refine ⟨_, _, tokens_cons more, ?_⟩
    rcases scan_ret line (start line s) with ⟨zero, -⟩ | ⟨-, same⟩ | ⟨lead, ret⟩ | ⟨none, -, -⟩
    · exact absurd zero nonzero
    · left
      change (scan line (start line s)).1 ∈ toks
      rwa [same]
    · rw [lead] at found
      rcases ret with ret | ret
      · left
        change (scan line (start line s)).1 ∈ toks
        rwa [ret]
      · exact Or.inr ⟨ret, found⟩
    · exact absurd (all found) none
  · rintro ⟨t, ts, list, found⟩
    obtain ⟨rfl, -, more⟩ := gettoken_of_tokens list
    refine ⟨mt gettoken_ret_eq_zero.mpr more, ?_⟩
    change (scan line (start line s)).1 ∈ toks ∨ (scan line (start line s)).1 = plus ∧ _ at found
    rcases scan_ret line (start line s) with ⟨zero, ret⟩ | ⟨single, same⟩ | ⟨lead,
      ret⟩ | ⟨-, -, ret⟩
    · exact absurd ret more
    · rw [same] at found
      rcases found with found | ⟨ret, -⟩
      · exact found
      · rw [ret] at single
        exact absurd single (by decide)
    · rw [lead]
      rcases found with found | ⟨-, found⟩
      · rcases ret with ret | ret
        · rwa [ret] at found
        · rw [ret] at found
          exact absurd (all found) (by decide)
      · exact found
    · rw [ret] at found
      rcases found with found | ⟨ret, -⟩
      · exact absurd (all found) (by decide)
      · exact absurd ret (by decide)

theorem peek_symbol_iff {line : List UInt8} {s : Nat} {toks : List UInt8} (all : toks ⊆ symbols)
    (no_greater : greater ∉ toks) :
    (peek line s toks).1 = true ↔ ∃ t ts, tokens line s = t :: ts ∧ t.ret ∈ toks := by
  rw [peek_iff all]
  simp [no_greater]

/-- The tokens that start a redirection. -/
def redirs : List UInt8 := [less, greater, plus]

theorem peek_redir_iff {line : List UInt8} {s : Nat} :
    (peek line s [less, greater]).1 = true ↔
      ∃ t ts, tokens line s = t :: ts ∧ t.ret ∈ redirs := by
  rw [peek_iff (by decide)]
  simp [redirs, or_assoc]

/-- `peek` for one symbol that is there. -/
theorem peek_cons {line : List UInt8} {s : Nat} {toks : List UInt8} {t : Token Span}
    {ts : List (Token Span)} (all : toks ⊆ symbols) (no_greater : greater ∉ toks)
    (list : tokens line s = t :: ts) : (peek line s toks).1 = true ↔ t.ret ∈ toks := by
  rw [peek_symbol_iff all no_greater, list]
  simp

theorem peek_nil {line : List UInt8} {s : Nat} {toks : List UInt8} (all : toks ⊆ symbols)
    (list : tokens line s = []) : (peek line s toks).1 = false := by
  rw [← Bool.not_eq_true, peek_iff all, list]
  simp

/-- The whole line has been read if no tokens are left. -/
theorem peek_end_iff (line : CString) {s : Nat} (inside : s ≤ line.chars.length) :
    (peek line.chars s []).2 = line.chars.length ↔ tokens line.chars s = [] := by
  have bound := skip_le (p := whitespace.contains) inside
  rw [tokens_eq_nil_iff, gettoken_ret_eq_zero]
  constructor
  · intro ended
    change byte line.chars (peek line.chars s []).2 = 0
    rw [ended, byte, List.getD_eq_default _ _ (le_refl _)]
  · intro zero
    by_contra before
    exact byte_ne_zero line (lt_of_le_of_ne bound before) zero

end Mysh
end Xv6Duo
