import EnemyBehavior.Json.Text
import EnemyBehavior.Proofs.Decimals
import Mathlib.Data.List.TakeWhile

/-!
# JSON tokens are read back

A word, that is a name or a number, is complete only when another character ends it, so two words
that touch are read as one. The tokens of a value never touch like that: between two words stands a
mark, a bracket, a comma or a colon. So tokens are read back if they are joined by marks
(`Lexes.append`), each word and each quoted text being read back on its own.

## Main statements

* `bareToken?_int` — an integer of at most 64 bits
* `foldlM_quote` — a quoted text, whatever characters it holds
* `Lexes.append` — tokens on both sides of a mark
-/

namespace EnemyBehavior.Json

variable {ts ts' : List Token} {t : Token} {l : Lexer} {word : List Char}

/-! ## Numbers -/

theorem magnitude?_toDigits (negative : Bool) (n : Nat) :
    magnitude? negative (Nat.toDigits 10 n) = some ⟨negative, Nat.toDigits 10 n, [], 0, true⟩ := by
  have hdigits := Decimal.all_isDigit_toDigits n
  unfold magnitude?
  rw [List.takeWhile_eq_self_iff.mpr hdigits, List.dropWhile_eq_nil_iff.mpr hdigits]
  exact if_pos (isWholePart_toDigits n)

/-- The token of a number written in full, if it is not minus zero. -/
theorem token_toDigits {n : Nat} (negative : Bool) (hn : n < UInt64.size)
    (hzero : negative = true → n ≠ 0) (text : List Char) :
    NumberText.token ⟨negative, Nat.toDigits 10 n, [], 0, true⟩ text
      = .int (if negative then -(n : Int) else n) := by
  unfold NumberText.token
  rw [Decimal.exceedsDouble_toDigits hn, Decimal.value_toDigits]
  cases negative with
  | false => rfl
  | true => simp [hzero rfl]

/-- What starts like a number is read as a number. -/
theorem bareToken?_cons {c : Char} {cs : List Char} (h : c.isDigit = true ∨ c = '-') :
    bareToken? (c :: cs) = (numberText? (c :: cs)).map (·.token (c :: cs)) := by
  have hnot : ∀ name : List Char,
      (name.head?.any fun d => d.isDigit || d == '-') = false → c :: cs ≠ name := by
    rintro _ hname rfl
    rcases h with h | rfl
    · simp [h] at hname
    · cases hname
  unfold bareToken?
  rw [if_neg (hnot _ (by decide)), if_neg (hnot _ (by decide)), if_neg (hnot _ (by decide))]

theorem bareToken?_toDigits {n : Nat} (hn : n < UInt64.size) :
    bareToken? (Nat.toDigits 10 n) = some (.int n) := by
  obtain ⟨d, ds, hdigits⟩ := List.exists_cons_of_ne_nil (Nat.toDigits_ne_nil (n := n) (b := 10))
  have hd : d.isDigit = true := Decimal.all_isDigit_toDigits n d (hdigits ▸ List.mem_cons_self)
  have hminus : d ≠ '-' := by
    rintro rfl
    cases hd
  have hnumber : numberText? (d :: ds) = magnitude? false (d :: ds) := by
    unfold numberText?
    split
    · next heq => exact absurd (List.cons.inj heq).1 hminus
    · rfl
  rw [hdigits, bareToken?_cons (.inl hd), hnumber, ← hdigits, magnitude?_toDigits]
  exact congrArg some (token_toDigits false hn (fun h => nomatch h) _)

theorem bareToken?_neg_toDigits {n : Nat} (hn : n < UInt64.size) (hzero : n ≠ 0) :
    bareToken? ('-' :: Nat.toDigits 10 n) = some (.int (-n)) := by
  rw [bareToken?_cons (.inr rfl)]
  show (magnitude? true (Nat.toDigits 10 n)).map _ = _
  rw [magnitude?_toDigits]
  exact congrArg some (token_toDigits true hn (fun _ => hzero) _)

/-- **An integer of at most 64 bits is read back.** -/
theorem bareToken?_int {i : Int} (h : i.natAbs < UInt64.size) :
    bareToken? (toString i).toList = some (.int i) := by
  have hrepr : ∀ n : Nat, n.repr.toList = Nat.toDigits 10 n := fun n =>
    (congrArg String.toList Nat.repr_eq_ofList_toDigits).trans String.toList_ofList
  rw [Int.toString_eq_repr, Int.repr_eq_if]
  split
  · have hi : ((i.toNat : Nat) : Int) = i := Int.toNat_of_nonneg ‹_›
    rw [hrepr, bareToken?_toDigits (by omega), hi]
  · have hi : -((-i).toNat : Int) = i := by omega
    rw [String.toList_append, hrepr]
    exact (bareToken?_neg_toDigits (by omega) (by omega)).trans (by rw [hi])

/-- The characters of an integer are those of a word. -/
theorem all_isBare_int (i : Int) : (toString i).toList.all Lexer.isBare = true := by
  rw [List.all_eq_true]
  have hrepr : ∀ n : Nat, ∀ c ∈ n.repr.toList, Lexer.isBare c = true := by
    intro n c hc
    rw [Nat.repr_eq_ofList_toDigits, String.toList_ofList] at hc
    have hdigit := Decimal.all_isDigit_toDigits n c hc
    simp [Lexer.isBare, Char.isAlphanum, hdigit]
  rw [Int.toString_eq_repr, Int.repr_eq_if]
  split
  · exact hrepr _
  · intro c hc
    rw [String.toList_append, List.mem_append] at hc
    rcases hc with hc | hc
    · obtain rfl : c = '-' := List.mem_singleton.mp hc
      rfl
    · exact hrepr _ c hc

/-! ## Quoted texts -/

/-- A hexadecimal digit has the value it was written for. -/
theorem hexValue?_hexDigit : ∀ n < 16, Lexer.hexValue? (hexDigit n) = some n := by decide

/-- An escape of four digits is read back. -/
theorem foldlM_codeEscape {n : Nat} (hn : n < 256) (done : List Token) (codes : List Nat) :
    ['\\', 'u', '0', '0', hexDigit (n / 16), hexDigit (n % 16)].foldlM Lexer.step
      ⟨done, .quoted codes⟩ = some ⟨done, .quoted (n :: codes)⟩ := by
  have hhigh : Lexer.hexValue? (hexDigit (n / 16)) = some (n / 16) :=
    hexValue?_hexDigit _ (by omega)
  have hlow : Lexer.hexValue? (hexDigit (n % 16)) = some (n % 16) :=
    hexValue?_hexDigit _ (by omega)
  have hcode : ((0 * 16 + 0) * 16 + n / 16) * 16 + n % 16 = n := by omega
  show (Option.map _ (Lexer.hexValue? (hexDigit (n / 16))) >>= fun l =>
    [hexDigit (n % 16)].foldlM Lexer.step l) = _
  rw [hhigh]
  show (Option.map _ (Lexer.hexValue? (hexDigit (n % 16))) >>= fun l => [].foldlM Lexer.step l) = _
  rw [hlow]
  show some (Lexer.mk done (.quoted ((((0 * 16 + 0) * 16 + n / 16) * 16 + n % 16) :: codes))) = _
  rw [hcode]

/-- **A character inside a quoted text is read back**, escaped or not. -/
theorem foldlM_escapeChar (done : List Token) (codes : List Nat) (c : Char) :
    (escapeChar c).foldlM Lexer.step ⟨done, .quoted codes⟩
      = some ⟨done, .quoted (c.toNat :: codes)⟩ := by
  unfold escapeChar
  split
  · next h => subst h; rfl
  split
  · next h => subst h; rfl
  split
  · next hquote hslash hplain =>
    have hstep : Lexer.step ⟨done, .quoted codes⟩ c = some ⟨done, .quoted (c.toNat :: codes)⟩ := by
      simp [Lexer.step, hquote, hslash, Nat.not_lt.mpr hplain]
    show Lexer.step _ c >>= _ = _
    rw [hstep]
    rfl
  split
  · next h => subst h; rfl
  split
  · next h => subst h; rfl
  split
  · next h => subst h; rfl
  split
  · next h => rw [h]; rfl
  split
  · next h => rw [h]; rfl
  · exact foldlM_codeEscape (by omega) done codes

theorem foldlM_escapeChars (done : List Token) (codes : List Nat) (text : List Char) :
    (text.flatMap escapeChar).foldlM Lexer.step ⟨done, .quoted codes⟩
      = some ⟨done, .quoted ((text.map Char.toNat).reverse ++ codes)⟩ := by
  induction text generalizing codes with
  | nil => rfl
  | cons c text ih =>
    rw [List.flatMap_cons, List.foldlM_append, foldlM_escapeChar]
    refine (ih (c.toNat :: codes)).trans ?_
    rw [List.map_cons, List.reverse_cons, List.append_assoc]
    rfl

/-- No character is half a surrogate pair. -/
theorem textOfCodes?_map_toNat (text : List Char) :
    textOfCodes? (text.map Char.toNat) = some text := by
  induction text with
  | nil => rfl
  | cons c text ih =>
    have hvalid : c.toNat < 0xD800 ∨ 0xDFFF < c.toNat := by
      rcases c.valid with h | ⟨h, -⟩
      · exact .inl h
      · exact .inr h
    have hhigh : isHighSurrogate c.toNat = false := by
      simp only [isHighSurrogate, Bool.and_eq_false_iff, decide_eq_false_iff_not]
      omega
    have hlow : isLowSurrogate c.toNat = false := by
      simp only [isLowSurrogate, Bool.and_eq_false_iff, decide_eq_false_iff_not]
      omega
    unfold textOfCodes?
    simp only [List.map_cons, hhigh, hlow, ih, Char.ofNat_toNat, Bool.false_eq_true, if_false,
      Option.map_some]

theorem foldlM_quote (done : List Token) (s : String) :
    (quote s).foldlM Lexer.step ⟨done, .gap⟩ = some ⟨.string s :: done, .gap⟩ := by
  show (s.toList.flatMap escapeChar ++ ['"']).foldlM Lexer.step ⟨done, .quoted []⟩ = _
  rw [List.foldlM_append, foldlM_escapeChars, List.append_nil]
  show some (Lexer.mk (quotedToken (s.toList.map Char.toNat).reverse.reverse :: done) .gap) = _
  rw [List.reverse_reverse, quotedToken, textOfCodes?_map_toNat]
  simp only [String.ofList_toList]

/-! ## Words and marks -/

theorem gapStep_bare {c : Char} (hc : Lexer.isBare c = true) (done : List Token) :
    Lexer.gapStep done c = some ⟨done, .bare [c]⟩ := by
  have hblank : ¬ Lexer.isBlank c = true := by
    intro hblank
    simp only [Lexer.isBlank, Bool.or_eq_true, beq_iff_eq] at hblank
    rcases hblank with ((rfl | rfl) | rfl) | rfl <;> cases hc
  have hquote : c ≠ '"' := by
    rintro rfl
    cases hc
  rw [Lexer.gapStep, if_neg hblank, if_neg hquote, if_pos hc]

/-- Inside a word, the characters of words gather. -/
theorem foldlM_bare (done : List Token) (rest : List Char)
    (h : ∀ c ∈ rest, Lexer.isBare c = true) :
    rest.foldlM Lexer.step ⟨done, .bare word⟩ = some ⟨done, .bare (rest.reverse ++ word)⟩ := by
  induction rest generalizing word with
  | nil => rfl
  | cons c rest ih =>
    obtain ⟨hc, hrest⟩ := List.forall_mem_cons.mp h
    have hstep : Lexer.step ⟨done, .bare word⟩ c = some ⟨done, .bare (c :: word)⟩ := if_pos hc
    rw [List.foldlM_cons, hstep]
    refine (ih hrest).trans ?_
    rw [List.reverse_cons, List.append_assoc]
    rfl

/-- A token of one character. -/
def Token.IsMark (t : Token) : Prop := ∃ c, t.chars = [c] ∧ Lexer.punctuation? c = some t

theorem gapStep_mark {c : Char} (hc : Lexer.punctuation? c = some t) (done : List Token) :
    Lexer.isBare c = false ∧ Lexer.gapStep done c = some ⟨t :: done, .gap⟩ := by
  unfold Lexer.punctuation? at hc
  split at hc
  case h_7 => cases hc
  all_goals
    cases hc
    exact ⟨rfl, rfl⟩

/-- **A mark ends the word before it**, if there is one. -/
theorem step_mark {c : Char} (h : l.finish = some ts) (hc : Lexer.punctuation? c = some t) :
    l.step c = some ⟨t :: ts.reverse, .gap⟩ := by
  obtain ⟨done, mode⟩ := l
  cases mode with
  | gap =>
    obtain rfl : done.reverse = ts := Option.some.inj h
    rw [List.reverse_reverse]
    exact (gapStep_mark hc done).2
  | bare word =>
    obtain ⟨t', hword, rfl⟩ := Option.map_eq_some_iff.mp h
    obtain ⟨hbare, hgap⟩ := gapStep_mark hc (t' :: done)
    show (if Lexer.isBare c = true then _ else _) = _
    rw [hbare, if_neg Bool.false_ne_true, hword, List.reverse_reverse]
    exact hgap
  | quoted | escape | code => cases h

/-! ## Tokens -/

/-- The tokens are read back behind any others, the last of them when the text ends. -/
def Lexes (ts : List Token) : Prop :=
  ∀ done, ∃ l, (ts.flatMap Token.chars).foldlM Lexer.step ⟨done, .gap⟩ = some l ∧
    l.finish = some (done.reverse ++ ts)

theorem lexes_nil : Lexes [] := fun done => ⟨_, rfl, by simp [Lexer.finish]⟩

/-- A word is read back if it is judged to be the token. -/
theorem lexes_word (hchars : t.chars.all Lexer.isBare = true)
    (hword : bareToken? t.chars = some t) : Lexes [t] := by
  intro done
  obtain ⟨c, cs, hcs⟩ : ∃ c cs, t.chars = c :: cs := by
    refine List.exists_cons_of_ne_nil fun hnil => ?_
    rw [hnil] at hword
    cases hword
  rw [hcs] at hchars hword
  obtain ⟨hc, hrest⟩ := List.forall_mem_cons.mp (List.all_eq_true.mp hchars)
  have hfirst : Lexer.step ⟨done, .gap⟩ c = some ⟨done, .bare [c]⟩ := gapStep_bare hc done
  refine ⟨⟨done, .bare (cs.reverse ++ [c])⟩, ?_, ?_⟩
  · rw [List.flatMap_singleton, hcs, List.foldlM_cons, hfirst]
    exact foldlM_bare done cs hrest
  · show (bareToken? (cs.reverse ++ [c]).reverse).map _ = _
    rw [List.reverse_append, List.reverse_reverse, List.reverse_singleton, List.singleton_append,
      hword, Option.map_some, List.reverse_cons]

theorem lexes_string (s : String) : Lexes [.string s] := by
  intro done
  refine ⟨⟨.string s :: done, .gap⟩, ?_, congrArg some List.reverse_cons⟩
  rw [List.flatMap_singleton]
  exact foldlM_quote done s

/-- **Tokens on both sides of a mark are read back.** -/
theorem Lexes.append (h : Lexes ts) (ht : t.IsMark) (h' : Lexes ts') : Lexes (ts ++ t :: ts') := by
  intro done
  obtain ⟨l, hl, hfinish⟩ := h done
  obtain ⟨c, hchars, hc⟩ := ht
  obtain ⟨l', hl', hfinish'⟩ := h' (t :: (done.reverse ++ ts).reverse)
  refine ⟨l', ?_, ?_⟩
  · rw [List.flatMap_append, List.flatMap_cons, hchars, List.foldlM_append, hl]
    show l.step c >>= _ = _
    rw [step_mark hfinish hc]
    exact hl'
  · rw [hfinish']
    simp

end EnemyBehavior.Json
