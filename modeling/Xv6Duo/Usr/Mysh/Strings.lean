import Xv6Duo.Usr.Mysh.Grammar

/-!
# The strings of a command

`nulterminate` writes a NUL behind each string of the command, and none of them falls into another
string. A command can be written down so that the parser returns it.
-/

namespace Xv6Duo
namespace Mysh

open ByteBlock (CString)

/-! ## Other strings -/

section

variable {σ τ : Type}

/-- The same token with another text. -/
def Token.map (f : σ → τ) (t : Token σ) : Token τ := { ret := t.ret, text := f t.text }

theorem redircmd_map (f : σ → τ) (tok : UInt8) (file : σ) (cmd : Cmd σ) :
    (redircmd tok file cmd).map f = redircmd tok (f file) (cmd.map f) := by
  rw [redircmd, redircmd]
  split
  · rfl
  · split <;> rfl

theorem wrap_map (f : σ → τ) (rs : List (UInt8 × σ)) (cmd : Cmd σ) :
    (wrap rs cmd).map f = wrap (rs.map (Prod.map id f)) (cmd.map f) := by
  induction rs generalizing cmd with
  | nil => rfl
  | cons r rs ih =>
      change (wrap rs (redircmd r.1 r.2 cmd)).map f = _
      rw [ih, redircmd_map]
      rfl

theorem back_map (f : σ → τ) (n : Nat) (cmd : Cmd σ) :
    (Cmd.back^[n] cmd).map f = Cmd.back^[n] (cmd.map f) := by
  induction n generalizing cmd with
  | zero => rfl
  | succ n ih =>
      rw [Function.iterate_succ_apply, ih, Function.iterate_succ_apply]
      rfl

theorem Args.map (f : σ → τ) {argv : List σ} {rs : List (UInt8 × σ)} {ts : List (Token σ)}
    (all : Args argv rs ts) :
    Args (argv.map f) (rs.map (Prod.map id f)) (ts.map (Token.map f)) := by
  induction all with
  | nil => exact .nil
  | redir known _ ih => exact .redir known ih
  | word _ ih => exact .word ih

theorem Parses.map (f : σ → τ) {level : Level} {cmd : Cmd σ} {ts : List (Token σ)}
    (parses : Parses level cmd ts) : Parses level (cmd.map f) (ts.map (Token.map f)) := by
  induction parses with
  | args few all =>
      rw [wrap_map]
      exact .args (by rwa [List.length_map]) (all.map f)
  | block _ behind ih =>
      rw [wrap_map, List.map_cons, List.map_append, List.map_cons]
      exact .block ih (behind.map f)
  | single _ ih => exact .single ih
  | pipe _ _ first rest =>
      rw [List.map_append, List.map_cons]
      exact .pipe first rest
  | @last cmd ts amps _ backs ih =>
      have same : (amps.map (Token.map f)).length = amps.length := List.length_map _
      rw [back_map, List.map_append, ← same]
      exact .last ih (by simpa [Token.map] using backs)
  | @list sign cmd rest ts amps later _ backs _ first behind =>
      have same : (amps.map (Token.map f)).length = amps.length := List.length_map _
      rw [Cmd.map, back_map, List.map_append, List.map_append, List.map_cons, ← same]
      exact .list first (by simpa [Token.map] using backs) behind

theorem Args.of_map {f : σ → τ} {argv : List τ} {rs : List (UInt8 × τ)} {ts : List (Token σ)}
    (all : Args argv rs (ts.map (Token.map f))) :
    ∃ argv' rs', Args argv' rs' ts ∧ argv'.map f = argv ∧ rs'.map (Prod.map id f) = rs := by
  generalize mapped : ts.map (Token.map f) = ts' at all
  induction all generalizing ts with
  | nil =>
      rw [List.map_eq_nil_iff] at mapped
      subst mapped
      exact ⟨[], [], .nil, rfl, rfl⟩
  | redir known _ ih =>
      obtain ⟨⟨op, sign⟩, rest, rfl, first, mapped₁⟩ := List.map_eq_cons_iff.mp mapped
      obtain ⟨⟨ret, file⟩, rest, rfl, second, mapped₂⟩ := List.map_eq_cons_iff.mp mapped₁
      cases first
      cases second
      obtain ⟨argv', rs', all, rfl, rfl⟩ := ih mapped₂
      exact ⟨argv', (op, file) :: rs', .redir known all, rfl, rfl⟩
  | word _ ih =>
      obtain ⟨⟨ret, text⟩, rest, rfl, first, mapped₁⟩ := List.map_eq_cons_iff.mp mapped
      cases first
      obtain ⟨argv', rs', all, rfl, rfl⟩ := ih mapped₁
      exact ⟨text :: argv', rs', .word all, rfl, rfl⟩

/-- What the texts of tokens stand for, the tokens stand for. -/
theorem Parses.of_map {f : σ → τ} {level : Level} {cmd : Cmd τ} {ts : List (Token σ)}
    (parses : Parses level cmd (ts.map (Token.map f))) :
    ∃ cmd', Parses level cmd' ts ∧ cmd'.map f = cmd := by
  generalize mapped : ts.map (Token.map f) = ts' at parses
  induction parses generalizing ts with
  | args few all =>
      rw [← mapped] at all
      obtain ⟨argv, rs, before, rfl, rfl⟩ := all.of_map
      rw [List.length_map] at few
      exact ⟨_, .args few before, wrap_map f rs _⟩
  | block _ behind ih =>
      obtain ⟨⟨ret, opening⟩, rest, rfl, first, mapped₁⟩ := List.map_eq_cons_iff.mp mapped
      obtain ⟨inner, rest, rfl, mapped₂, mapped₃⟩ := List.map_eq_append_iff.mp mapped₁
      obtain ⟨⟨ret, closing⟩, rest, rfl, second, rfl⟩ := List.map_eq_cons_iff.mp mapped₃
      cases first
      cases second
      obtain ⟨cmd, inner, rfl⟩ := ih mapped₂
      obtain ⟨argv, rs, behind, none, rfl⟩ := behind.of_map
      rw [List.map_eq_nil_iff] at none
      subst none
      exact ⟨_, .block inner behind, wrap_map f rs cmd⟩
  | single _ ih =>
      obtain ⟨cmd, only, rfl⟩ := ih mapped
      exact ⟨cmd, .single only, rfl⟩
  | pipe _ _ first rest =>
      obtain ⟨front, later, rfl, mapped₁, mapped₂⟩ := List.map_eq_append_iff.mp mapped
      obtain ⟨⟨ret, sign⟩, later, rfl, is_bar, mapped₃⟩ := List.map_eq_cons_iff.mp mapped₂
      cases is_bar
      obtain ⟨cmd, front, rfl⟩ := first mapped₁
      obtain ⟨cmds, behind, rfl⟩ := rest mapped₃
      exact ⟨.pipe cmd cmds, .pipe front behind, rfl⟩
  | last _ backs ih =>
      obtain ⟨front, amps, rfl, mapped₁, rfl⟩ := List.map_eq_append_iff.mp mapped
      obtain ⟨cmd, front, rfl⟩ := ih mapped₁
      refine ⟨_, .last front (by simpa [Token.map] using backs), ?_⟩
      rw [back_map, List.length_map]
  | list _ backs _ first behind =>
      obtain ⟨front, later, rfl, mapped₁, mapped₂⟩ := List.map_eq_append_iff.mp mapped
      obtain ⟨⟨ret, sign⟩, later, rfl, is_semi, mapped₃⟩ := List.map_eq_cons_iff.mp mapped₂
      obtain ⟨front, amps, rfl, mapped₄, rfl⟩ := List.map_eq_append_iff.mp mapped₁
      cases is_semi
      obtain ⟨cmd, front, rfl⟩ := first mapped₄
      obtain ⟨rest, later, rfl⟩ := behind mapped₃
      refine ⟨_, .list front (by simpa [Token.map] using backs) later, ?_⟩
      rw [Cmd.map, back_map, List.length_map]

end

/-! ## Where the strings stand -/

/-- The strings of a command, in the order of `nulterminate`. -/
def Cmd.strings {σ : Type} : Cmd σ → List σ
  | exec argv => argv
  | redir cmd file _ _ => strings cmd ++ [file]
  | pipe left right => strings left ++ strings right
  | list left right => strings left ++ strings right
  | back cmd => strings cmd

theorem ends_eq (cmd : Cmd Span) : ends cmd = cmd.strings.map Span.eq := by
  induction cmd with
  | exec argv => rfl
  | redir cmd file mode fd ih => rw [ends, ih, Cmd.strings, List.map_append, List.map_singleton]
  | pipe left right ih ih' => rw [ends, ih, ih', Cmd.strings, List.map_append]
  | list left right ih ih' => rw [ends, ih, ih', Cmd.strings, List.map_append]
  | back cmd ih => exact ih

theorem strings_wrap {σ : Type} (rs : List (UInt8 × σ)) (cmd : Cmd σ) :
    (wrap rs cmd).strings = cmd.strings ++ rs.map Prod.snd := by
  induction rs generalizing cmd with
  | nil => exact (List.append_nil _).symm
  | cons r rs ih =>
      have one : (redircmd r.1 r.2 cmd).strings = cmd.strings ++ [r.2] := by
        rw [redircmd]
        split
        · rfl
        · split <;> rfl
      change (wrap rs (redircmd r.1 r.2 cmd)).strings = _
      rw [ih, one, List.append_assoc, List.singleton_append, List.map_cons]

theorem strings_back {σ : Type} (n : Nat) (cmd : Cmd σ) :
    (Cmd.back^[n] cmd).strings = cmd.strings := by
  induction n with
  | zero => rfl
  | succ n ih =>
      rw [Function.iterate_succ_apply', Cmd.strings, ih]

theorem Args.words {σ : Type} {argv : List σ} {rs : List (UInt8 × σ)} {ts : List (Token σ)}
    (all : Args argv rs ts) : ∀ text ∈ argv ++ rs.map Prod.snd, ⟨Mysh.word, text⟩ ∈ ts := by
  induction all with
  | nil => simp
  | redir _ _ ih =>
      intro text among
      rw [List.map_cons, List.mem_append, List.mem_cons] at among
      rw [List.mem_cons, List.mem_cons]
      rcases among with among | rfl | among
      · exact Or.inr (Or.inr (ih text (List.mem_append_left _ among)))
      · exact Or.inr (Or.inl rfl)
      · exact Or.inr (Or.inr (ih text (List.mem_append_right _ among)))
  | word _ ih =>
      intro text among
      rw [List.cons_append, List.mem_cons] at among
      rw [List.mem_cons]
      rcases among with rfl | among
      · exact Or.inl rfl
      · exact Or.inr (ih text among)

/-- Each string of a command is the text of a word. -/
theorem Parses.words {σ : Type} {level : Level} {cmd : Cmd σ} {ts : List (Token σ)}
    (parses : Parses level cmd ts) : ∀ text ∈ cmd.strings, ⟨word, text⟩ ∈ ts := by
  induction parses with
  | args _ all =>
      rw [strings_wrap]
      exact all.words
  | block _ behind ih =>
      intro text among
      rw [strings_wrap, List.mem_append] at among
      rw [List.mem_cons, List.mem_append, List.mem_cons]
      rcases among with among | among
      · exact Or.inr (Or.inl (ih text among))
      · exact Or.inr (Or.inr (Or.inr (behind.words text (List.mem_append_right _ among))))
  | single _ ih => exact ih
  | pipe _ _ first rest =>
      intro text among
      rw [List.mem_append, List.mem_cons]
      rcases List.mem_append.mp among with among | among
      · exact Or.inl (first text among)
      · exact Or.inr (Or.inr (rest text among))
  | last _ _ ih =>
      intro text among
      rw [strings_back] at among
      exact List.mem_append_left _ (ih text among)
  | list _ _ _ first behind =>
      intro text among
      rw [Cmd.strings, strings_back] at among
      rw [List.mem_append, List.mem_append, List.mem_cons]
      rcases List.mem_append.mp among with among | among
      · exact Or.inl (Or.inl (first text among))
      · exact Or.inr (Or.inr (behind text among))

theorem scan_word_end {line : List UInt8} {s : Nat} (is_word : (scan line s).1 = word) :
    byte line s ≠ 0 ∧ byte line s ∉ symbols ∧ (scan line s).2 = skip inWord line s := by
  rcases scan_ret line s with ⟨-, ret⟩ | ⟨single, same⟩ | ⟨-, ret⟩ | ⟨none, nonzero, -⟩
  · rw [ret] at is_word
    exact absurd is_word (by decide)
  · rw [← same, is_word] at single
    exact absurd single (by decide)
  · rw [is_word] at ret
    exact absurd ret (by decide)
  · refine ⟨nonzero, none, ?_⟩
    rw [scan_word nonzero]
    · intro single
      have all : [bar, left, right, semi, amp, less] ⊆ symbols := by decide
      exact none (all single)
    · intro other
      exact none (other ▸ by decide)

/-- A word: its bytes are those of a word, and the byte behind it is not. -/
theorem word_span {line : List UInt8} {s : Nat} {span : Span}
    (among : ⟨word, span⟩ ∈ tokens line s) :
    span.eq = skip inWord line span.q ∧ span.q < span.eq ∧ span.eq ≤ line.length := by
  induction s using tokens.induct line with
  | case1 s ended =>
      rw [tokens_nil ended] at among
      cases among
  | case2 s more ih =>
      rw [tokens_cons more, List.mem_cons] at among
      rcases among with same | among
      · have is_word : (scan line (start line s)).1 = word := (congrArg Token.ret same).symm
        have bounds := gettoken_bounds more
        have span_eq : span = (gettoken line s).1.text := congrArg Token.text same
        rw [span_eq]
        exact ⟨(scan_word_end is_word).2.2, bounds⟩
      · exact ih among

/-- The bytes between two places. -/
def text (line : List UInt8) (span : Span) : List UInt8 :=
  (line.drop span.q).take (span.eq - span.q)

theorem text_word {line : List UInt8} {span : Span} (same : span.eq = skip inWord line span.q) :
    text line span = (line.drop span.q).takeWhile inWord := by
  have prefix_eq :=
    List.prefix_iff_eq_take.mp (List.takeWhile_prefix inWord (l := line.drop span.q))
  rw [text, same, skip, Nat.add_sub_cancel_left, ← prefix_eq]

theorem getElem?_set_zero (ends : List Nat) (line : List UInt8) (i : Nat) :
    (ends.foldl (fun line s => line.set s 0) line)[i]? =
      if i ∈ ends then (line)[i]?.map fun _ => 0 else (line)[i]? := by
  induction ends generalizing line with
  | nil => rfl
  | cons s ends ih =>
      rw [List.foldl_cons, ih, List.getElem?_set]
      by_cases here : s = i
      · subst here
        by_cases inside : s < line.length
        · simp [inside]
        · simp [inside]
      · rw [if_neg here]
        simp [Ne.symm here]

/-- A string of nonzero bytes with a NUL behind it. -/
theorem takeWhile_eq_take {bytes : List UInt8} {n : Nat} (nonzero : ∀ b ∈ bytes.take n, b ≠ 0)
    (ended : ∀ b ∈ bytes[n]?, b = 0) : bytes.takeWhile (· != 0) = bytes.take n := by
  induction n generalizing bytes with
  | zero =>
      cases bytes with
      | nil => rfl
      | cons b bytes =>
          rw [List.takeWhile_cons_of_neg (by simpa using ended b rfl), List.take_zero]
  | succ n ih =>
      cases bytes with
      | nil => rfl
      | cons b bytes =>
          rw [List.take_succ_cons] at nonzero ⊢
          obtain ⟨first, later⟩ := List.forall_mem_cons.mp nonzero
          rw [List.takeWhile_cons_of_pos (by simpa using first), ih later (by simpa using ended)]

theorem inWord_ne_zero {b : UInt8} {bytes : List UInt8} (no_nul : 0 ∉ bytes) (among : b ∈ bytes) :
    b ≠ 0 :=
  fun zero => no_nul (zero ▸ among)

theorem byte_in_word {line : List UInt8} {s i : Nat} (before : i < skip inWord line s - s) :
    inWord (byte line (s + i)) = true := by
  rw [skip, Nat.add_sub_cancel_left] at before
  have among := List.getElem_mem before
  rw [(List.takeWhile_prefix inWord).getElem before, List.getElem_drop] at among
  have inside : s + i < line.length := by
    have short := (List.takeWhile_prefix inWord (l := line.drop s)).length_le
    rw [List.length_drop] at short
    omega
  rw [byte, List.getD_eq_getElem _ _ inside]
  exact List.mem_takeWhile_imp among

/-- Behind a word stands no byte of a word. -/
theorem byte_word_end {line : List UInt8} {span : Span}
    (same : span.eq = skip inWord line span.q) (inside : span.eq < line.length) :
    inWord (byte line span.eq) = false := by
  rw [same] at inside ⊢
  have stopped := List.head?_dropWhile_not inWord (line.drop span.q)
  rw [← drop_skip, List.head?_drop, List.getElem?_eq_getElem inside] at stopped
  rw [byte, List.getD_eq_getElem _ _ inside]
  exact stopped

/-- In the line that `nulterminate` leaves, each string of the command is the text of its word. -/
theorem cstring_nulterminate (line : CString) {cmd : Cmd Span}
    (words : ∀ span ∈ cmd.strings, ⟨word, span⟩ ∈ tokens line.chars 0) {span : Span}
    (among : span ∈ cmd.strings) :
    cstring (nulterminate line.chars cmd) span.q = text line.chars span := by
  obtain ⟨same, start_lt, bound⟩ := word_span (words span among)
  have untouched : ∀ i, i < span.eq - span.q →
      (nulterminate line.chars cmd)[span.q + i]? = line.chars[span.q + i]? := by
    intro i before
    rw [nulterminate, getElem?_set_zero, if_neg]
    rw [ends_eq]
    rintro marked
    obtain ⟨other, other_among, ends_here⟩ := List.mem_map.mp marked
    have other_end := (word_span (words other other_among)).1
    have in_word : inWord (byte line.chars (span.q + i)) = true := by
      apply byte_in_word
      rwa [← same]
    rw [← ends_here, byte_word_end other_end (by omega)] at in_word
    cases in_word
  have read : ((nulterminate line.chars cmd).drop span.q).take (span.eq - span.q) =
      text line.chars span := by
    apply List.ext_getElem?
    intro i
    rw [text, List.getElem?_take, List.getElem?_take]
    split
    · next before => rw [List.getElem?_drop, List.getElem?_drop, untouched i before]
    · rfl
  rw [cstring, takeWhile_eq_take, read]
  · rw [read]
    intro b among
    exact inWord_ne_zero line.nonzero (List.mem_of_mem_drop (List.mem_of_mem_take among))
  · intro b here
    rw [List.getElem?_drop, Nat.add_sub_cancel' start_lt.le, nulterminate, getElem?_set_zero,
      if_pos] at here
    · obtain ⟨_, -, zero⟩ := Option.map_eq_some_iff.mp here
      exact zero.symm
    · rw [ends_eq]
      exact List.mem_map_of_mem among

/-! ## Lines and commands -/

/-- The tokens of a line with their texts. -/
def lexemes (line : CString) : List (Token (List UInt8)) :=
  (tokens line.chars 0).map (Token.map (text line.chars))

theorem map_congr {σ τ : Type} {f g : σ → τ} {cmd : Cmd σ}
    (same : ∀ text ∈ cmd.strings, f text = g text) : cmd.map f = cmd.map g := by
  induction cmd with
  | exec argv => exact congrArg Cmd.exec (List.map_congr_left same)
  | redir cmd file mode fd ih =>
      rw [Cmd.strings, List.forall_mem_append] at same
      rw [Cmd.map, Cmd.map, ih same.1, same.2 file (List.mem_singleton.mpr rfl)]
  | pipe left right ih ih' =>
      rw [Cmd.strings, List.forall_mem_append] at same
      rw [Cmd.map, Cmd.map, ih same.1, ih' same.2]
  | list left right ih ih' =>
      rw [Cmd.strings, List.forall_mem_append] at same
      rw [Cmd.map, Cmd.map, ih same.1, ih' same.2]
  | back cmd ih => exact congrArg Cmd.back (ih same)

theorem view_eq (line : CString) {cmd : Cmd Span}
    (parses : Parses .line cmd (tokens line.chars 0)) :
    cmd.map (fun span => cstring (nulterminate line.chars cmd) span.q) =
      cmd.map (text line.chars) :=
  map_congr fun _ among => cstring_nulterminate line parses.words among

theorem parsed_of_parses (line : CString) {cmd : Cmd (List UInt8)}
    (parses : Parses .line cmd (lexemes line)) : parsed line = .ok cmd := by
  obtain ⟨cmd, found, rfl⟩ := parses.of_map
  have returned := (parsecmd_eq_ok_iff line cmd _).mpr ⟨found, rfl⟩
  rw [parsed, returned, ← view_eq line found]
  rfl

theorem parses_of_parsed (line : CString) {cmd : Cmd (List UInt8)}
    (returned : parsed line = .ok cmd) : Parses .line cmd (lexemes line) := by
  rw [parsed] at returned
  cases found : parsecmd line with
  | error stop =>
      rw [found] at returned
      cases returned
  | ok r =>
      obtain ⟨parses, view⟩ := (parsecmd_eq_ok_iff line r.1 r.2).mp found
      rw [found] at returned
      cases returned
      change Parses .line (r.1.map fun span => cstring r.2 span.q) _
      rw [view, view_eq line parses]
      exact parses.map _

/-- For every line, `parsecmd` returns the commands that its tokens stand for, with all their
strings, and panics if there is none. -/
theorem parsed_iff (line : CString) :
    (∀ cmd, parsed line = .ok cmd ↔ Parses .line cmd (lexemes line)) ∧
      ((¬ ∃ cmd, Parses .line cmd (lexemes line)) →
        ∃ message, parsed line = .error (.panic message)) := by
  refine ⟨fun cmd => ⟨parses_of_parsed line, parsed_of_parses line⟩, fun none => ?_⟩
  cases returned : parsed line with
  | ok cmd => exact absurd ⟨cmd, parses_of_parsed line returned⟩ none
  | error stop =>
      cases stop with
      | panic message => exact ⟨message, rfl⟩
      | unfinished =>
          rw [parsed] at returned
          cases found : parsecmd line with
          | ok r =>
              rw [found] at returned
              cases returned
          | error stop =>
              rw [found] at returned
              cases returned
              exact absurd found (parsecmd_ne_unfinished line)

end Mysh
end Xv6Duo
