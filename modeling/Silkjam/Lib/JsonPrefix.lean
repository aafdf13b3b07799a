import Silkjam.Lib.JsonStyle

/-!
# Torn texts

What is scanned for a value does not change when more text follows, if it is behind the value's end:
a string, a list or an object ends with its own last character, a number or a word before a blank, a
comma or a bracket. So of the text that was written for a list or an object, no part that it begins
with is JSON but the whole (`eq_of_loads_prefix`).
-/

namespace Json

/-! ### Strings -/

theorem scanUnits_append {cs rest : List Char} {units : CodePoints}
    (h : scanUnits cs = some (units, rest)) (more : List Char) :
    scanUnits (cs ++ more) = some (units, rest ++ more) := by
  fun_induction scanUnits cs generalizing units rest with
  | case1 => cases h
  | case2 cs =>
    cases h
    rw [List.cons_append, scanUnits]
  | case3 a b c d cs ih =>
    simp only [Option.bind_eq_bind, Option.bind_eq_some_iff] at h
    obtain ⟨n, hn, ⟨units', rest'⟩, hunits, h⟩ := h
    cases h
    simp only [List.cons_append]
    rw [scanUnits, hn]
    simp only [Option.bind_eq_bind, Option.bind_some, ih hunits]
    rfl
  | case4 letter cs hu ih =>
    simp only [Option.bind_eq_bind, Option.bind_eq_some_iff] at h
    obtain ⟨⟨n, letter'⟩, hn, ⟨units', rest'⟩, hunits, h⟩ := h
    cases h
    have hmem := List.mem_of_find?_eq_some hn
    have hletter : letter' = letter := by simpa using List.find?_some hn
    subst hletter
    rw [List.cons_append, List.cons_append, scanUnits_letter hmem, ih hunits]
    rfl
  | case5 c cs => cases h
  | case6 c cs hquote hu hescape hlt ih =>
    rw [Option.map_eq_some_iff] at h
    obtain ⟨⟨units', rest'⟩, hunits, h⟩ := h
    cases h
    have hplain : c ≠ '\\' := by
      rintro rfl
      cases cs with
      | nil => cases hunits
      | cons letter cs => exact hescape letter cs rfl rfl
    rw [List.cons_append, scanUnits_plain hquote hplain, if_neg hlt, ih hunits]
    rfl

theorem scanStr_append {cs rest : List Char} {s : CodePoints} (h : scanStr cs = some (s, rest))
    (more : List Char) : scanStr (cs ++ more) = some (s, rest ++ more) := by
  unfold scanStr at h ⊢
  rw [Option.map_eq_some_iff] at h
  obtain ⟨⟨units, rest'⟩, hunits, h⟩ := h
  cases h
  rw [scanUnits_append hunits]
  rfl

/-! ### Numbers and words -/

theorem span_append {p : Char → Bool} {cs : List Char} (h : cs.dropWhile p ≠ [])
    (more : List Char) : (cs ++ more).takeWhile p = cs.takeWhile p ∧
      (cs ++ more).dropWhile p = cs.dropWhile p ++ more := by
  constructor
  · have hlength : (cs.takeWhile p).length ≠ cs.length := by
      intro heq
      have hsplit := congrArg List.length (List.takeWhile_append_dropWhile (p := p) (l := cs))
      rw [List.length_append, heq] at hsplit
      exact h (List.length_eq_zero_iff.1 (by omega))
    rw [List.takeWhile_append, if_neg hlength]
  · rw [List.dropWhile_append, if_neg]
    rwa [List.isEmpty_iff]

theorem skip_append {cs after : List Char} {c : Char} (h : skip cs = c :: after)
    (more : List Char) : skip (cs ++ more) = c :: (after ++ more) := by
  have hskip : skip (cs ++ more) = skip cs ++ more :=
    (span_append (by unfold skip at h; rw [h]; exact List.cons_ne_nil c after) more).2
  rw [hskip, h, List.cons_append]

theorem numberSign_of_ne {c : Char} (h : c ≠ '-') (cs : List Char) :
    numberSign (c :: cs) = ([], c :: cs) := by
  unfold numberSign
  split
  · next rest heq => exact absurd (List.cons.inj heq).1 h
  · rfl

theorem numberSign_append_right {cs : List Char} (h : cs ≠ []) (more : List Char) :
    numberSign (cs ++ more) = ((numberSign cs).1, (numberSign cs).2 ++ more) := by
  cases cs with
  | nil => exact absurd rfl h
  | cons c cs =>
    by_cases hc : c = '-'
    · subst hc
      rfl
    · rw [List.cons_append, numberSign_of_ne hc, numberSign_of_ne hc]
      rfl

theorem intPart_of_ne {c : Char} (h : c ≠ '0') (cs : List Char) :
    intPart (c :: cs) =
      ((c :: cs).takeWhile Char.isDigit, (c :: cs).dropWhile Char.isDigit) := by
  unfold intPart
  split
  · next rest heq => exact absurd (List.cons.inj heq).1 h
  · rw [List.span_eq_takeWhile_dropWhile]

theorem intPart_append_right {cs : List Char} (h : (intPart cs).2 ≠ []) (more : List Char) :
    intPart (cs ++ more) = ((intPart cs).1, (intPart cs).2 ++ more) := by
  cases cs with
  | nil => exact absurd rfl h
  | cons c cs =>
    by_cases hc : c = '0'
    · subst hc
      rfl
    · rw [intPart_of_ne hc] at h ⊢
      obtain ⟨htake, hdrop⟩ := span_append h more
      rw [List.cons_append] at htake hdrop ⊢
      rw [intPart_of_ne hc, htake, hdrop]

theorem fracPart_of_ne {c : Char} (h : c ≠ '.') (cs : List Char) :
    fracPart (c :: cs) = ([], c :: cs) := by
  unfold fracPart
  split
  · next d rest heq => exact absurd (List.cons.inj heq).1 h
  · rfl

theorem fracPart_append_right {cs : List Char} (hdot : cs ≠ ['.']) (h : (fracPart cs).2 ≠ [])
    (more : List Char) : fracPart (cs ++ more) = ((fracPart cs).1, (fracPart cs).2 ++ more) := by
  cases cs with
  | nil => exact absurd rfl h
  | cons c cs =>
    by_cases hc : c = '.'
    · subst hc
      cases cs with
      | nil => exact absurd rfl hdot
      | cons d cs =>
        simp only [List.cons_append, fracPart] at h ⊢
        split
        · next hd =>
          rw [if_pos hd] at h
          obtain ⟨htake, hdrop⟩ := span_append h more
          rw [htake, hdrop]
        · rfl
    · rw [List.cons_append, fracPart_of_ne hc, fracPart_of_ne hc]
      rfl

theorem expSign_append_right {cs : List Char} (h : cs ≠ []) (more : List Char) :
    expSign (cs ++ more) = ((expSign cs).1, (expSign cs).2 ++ more) := by
  cases cs with
  | nil => exact absurd rfl h
  | cons c cs =>
    by_cases hminus : c = '-'
    · subst hminus
      rfl
    · by_cases hplus : c = '+'
      · subst hplus
        rfl
      · have hsign (cs : List Char) : expSign (c :: cs) = ([], c :: cs) := by
          unfold expSign
          split
          · next rest heq => exact absurd (List.cons.inj heq).1 hminus
          · next rest heq => exact absurd (List.cons.inj heq).1 hplus
          · rfl
        rw [List.cons_append, hsign, hsign]
        rfl

theorem expPart_append_right {cs : List Char} (hends : Ends (expPart cs).2)
    (h : (expPart cs).2 ≠ []) (more : List Char) :
    expPart (cs ++ more) = ((expPart cs).1, (expPart cs).2 ++ more) := by
  cases cs with
  | nil => exact absurd rfl h
  | cons e cs =>
    simp only [List.cons_append, expPart] at h hends ⊢
    split
    · next he =>
      rw [if_pos he] at h hends
      by_cases hdigits : (expSign cs).2.takeWhile Char.isDigit = []
      · rw [if_pos hdigits] at hends
        rcases he with rfl | rfl
        · exact absurd (hends 'e' rfl) (by decide)
        · exact absurd (hends 'E' rfl) (by decide)
      · rw [if_neg hdigits] at h
        have hcs : cs ≠ [] := by
          rintro rfl
          exact hdigits rfl
        obtain ⟨htake, hdrop⟩ := span_append h more
        rw [expSign_append_right hcs]
        dsimp only
        rw [htake, hdrop, if_neg hdigits, if_neg hdigits]
    · rfl

theorem scanNumber_append {cs rest : List Char} {v : Json} (h : scanNumber cs = some (v, rest))
    (hends : Ends rest) (hne : rest ≠ []) (more : List Char) :
    scanNumber (cs ++ more) = some (v, rest ++ more) := by
  have hcs := numberSign_append cs
  have hint := intPart_append (numberSign cs).2
  have hfrac := fracPart_append (intPart (numberSign cs).2).2
  have hexp := expPart_append (fracPart (intPart (numberSign cs).2).2).2
  unfold scanNumber at h
  dsimp only at h
  split at h
  · cases h
  · next hdigits =>
    have hrest : rest = (expPart (fracPart (intPart (numberSign cs).2).2).2).2 := by
      split at h
      · obtain ⟨value, -, h⟩ := Option.map_eq_some_iff.1 h
        cases h
        rfl
      · cases h
        rfl
    subst hrest
    -- what is left at each stage is not empty, since the rest is not
    have hne₃ : (fracPart (intPart (numberSign cs).2).2).2 ≠ [] := by
      rw [← hexp]
      exact List.append_ne_nil_of_right_ne_nil _ hne
    have hne₂ : (intPart (numberSign cs).2).2 ≠ [] := by
      rw [← hfrac]
      exact List.append_ne_nil_of_right_ne_nil _ hne₃
    have hne₁ : cs ≠ [] := by
      rintro rfl
      exact hdigits rfl
    have hdot : (intPart (numberSign cs).2).2 ≠ ['.'] := by
      intro heq
      rw [heq] at hends
      exact absurd (hends '.' rfl) (by decide)
    unfold scanNumber
    rw [numberSign_append_right hne₁]
    dsimp only
    rw [intPart_append_right hne₂]
    dsimp only
    rw [if_neg hdigits, fracPart_append_right hdot hne₃]
    dsimp only
    rw [expPart_append_right hends hne]
    dsimp only
    split
    · next hnone =>
      rw [if_pos hnone] at h
      obtain ⟨value, hvalue, h⟩ := Option.map_eq_some_iff.1 h
      cases h
      rw [hvalue]
      rfl
    · next hsome =>
      rw [if_neg hsome] at h
      cases h
      rfl

theorem findSome?_word : ∀ e ∈ words, ∀ rest : List Char,
    words.findSome? (fun (word, value) => (word.isPrefixOf? (e.1 ++ rest)).map (value, ·)) =
      some (e.2, rest) := by
  simp only [words, List.forall_mem_cons]
  exact ⟨fun _ => rfl, fun _ => rfl, fun _ => rfl, fun _ => rfl, fun _ => rfl, fun _ => rfl,
    List.forall_mem_nil _⟩

theorem isDigit_of_mem_intPart {cs : List Char} {c : Char} (h : c ∈ (intPart cs).1) :
    c.isDigit = true := by
  unfold intPart at h
  split at h
  · rw [List.mem_singleton.1 h]
    rfl
  · rw [List.span_eq_takeWhile_dropWhile] at h
    exact List.all_eq_true.1 List.all_takeWhile c h

theorem exists_digit_of_scanNumber {cs rest : List Char} {v : Json}
    (h : scanNumber cs = some (v, rest)) :
    ∃ (sign : List Char) (d : Char) (ds : List Char), (sign = ['-'] ∨ sign = []) ∧
      d.isDigit = true ∧ cs = sign ++ d :: ds := by
  have hcs := numberSign_append cs
  have hint := intPart_append (numberSign cs).2
  have hsign : (numberSign cs).1 = ['-'] ∨ (numberSign cs).1 = [] := by
    unfold numberSign
    split
    · exact .inl rfl
    · exact .inr rfl
  unfold scanNumber at h
  dsimp only at h
  split at h
  · cases h
  · next hdigits =>
    obtain ⟨d, ds, hds⟩ := List.exists_cons_of_ne_nil hdigits
    refine ⟨(numberSign cs).1, d, ds ++ (intPart (numberSign cs).2).2, hsign, ?_, ?_⟩
    · exact isDigit_of_mem_intPart (by rw [hds]; exact List.mem_cons_self)
    · rw [← List.cons_append, ← hds, hint, hcs]

theorem scanScalar_append {cs rest : List Char} {v : Json} (h : scanScalar cs = some (v, rest))
    (hends : Ends rest) (hne : rest ≠ []) (more : List Char) :
    scanScalar (cs ++ more) = some (v, rest ++ more) := by
  unfold scanScalar at h
  split at h
  · next found hfound =>
    cases h
    obtain ⟨⟨word, value⟩, hword, hprefix⟩ := List.exists_of_findSome?_eq_some hfound
    obtain ⟨rest', hprefix, heq⟩ := Option.map_eq_some_iff.1 hprefix
    cases heq
    have hmore := findSome?_word _ hword (rest ++ more)
    unfold scanScalar
    rw [isPrefixOf?_append hprefix, List.append_assoc]
    dsimp only at hmore
    rw [hmore]
  · obtain ⟨sign, d, ds, hsign, hd, hcs⟩ := exists_digit_of_scanNumber h
    have hmore := findSome?_words hd hsign (ds ++ more)
    have hnumber := scanNumber_append h hends hne more
    unfold scanScalar
    rw [hcs, List.append_assoc, List.cons_append] at hnumber ⊢
    rw [hmore]
    exact hnumber

/-! ### Values -/

/-- What is scanned behind blanks does not change. -/
theorem scan_skip_append {α : Type} {scan : List Char → Option (α × List Char)}
    (hnil : scan [] = none)
    {cs rest more : List Char} {a : α}
    (happend : scan (skip cs) = some (a, rest) → scan (skip cs ++ more) = some (a, rest ++ more))
    (h : scan (skip cs) = some (a, rest)) :
    scan (skip (cs ++ more)) = some (a, rest ++ more) := by
  cases hskip : skip cs with
  | nil =>
    rw [hskip, hnil] at h
    cases h
  | cons c after =>
    rw [skip_append hskip, ← List.cons_append, ← hskip]
    exact happend h

theorem ends_of_skip {rest after : List Char} {c : Char} (h : skip rest = c :: after)
    (hc : c ∈ [',', ']', '}', ' ', '\t', '\n', '\r']) : Ends rest ∧ rest ≠ [] := by
  cases rest with
  | nil => cases h
  | cons d rest =>
    refine ⟨?_, List.cons_ne_nil d rest⟩
    rintro d' ⟨⟩
    by_cases hblank : isWhitespace d = true
    · have hnil : Ends [] := by
        rintro c' ⟨⟩
      have hends : Ends ([d] ++ []) := hnil.blanks (List.forall_mem_singleton.2 hblank)
      exact hends d rfl
    · have hskip : skip (d :: rest) = d :: rest := List.dropWhile_cons_of_neg hblank
      rw [hskip] at h
      rw [(List.cons.inj h).1]
      exact hc

/-- The end of the value is known. -/
def Settled (cs rest : List Char) : Prop :=
  (Ends rest ∧ rest ≠ []) ∨ ∃ c ∈ cs.head?, c = '"' ∨ c = '{' ∨ c = '['

theorem scanElements_nil (fuel : Nat) : scanElements fuel [] = none := by
  cases fuel with
  | zero => rw [scanElements]
  | succ fuel =>
    have hnone : scanOnce fuel [] = none := by
      cases fuel with
      | zero => rw [scanOnce]
      | succ fuel => rw [scanOnce]
    rw [scanElements, hnone]
    rfl

theorem scanMembers_nil (fuel : Nat) : scanMembers fuel [] = none := by
  rw [scanMembers]
  simp

theorem scanOnce_nil (fuel : Nat) : scanOnce fuel [] = none := by
  cases fuel with
  | zero => rw [scanOnce]
  | succ fuel => rw [scanOnce]

/-- **More text changes nothing behind the end of a value.** -/
theorem scan_append (fuel : Nat) (more : List Char) :
    (∀ cs v rest, scanOnce fuel cs = some (v, rest) → Settled cs rest →
      scanOnce fuel (cs ++ more) = some (v, rest ++ more)) ∧
    (∀ cs vs rest, scanElements fuel cs = some (vs, rest) →
      scanElements fuel (cs ++ more) = some (vs, rest ++ more)) ∧
    ∀ cs ms rest, scanMembers fuel cs = some (ms, rest) →
      scanMembers fuel (cs ++ more) = some (ms, rest ++ more) := by
  induction fuel with
  | zero =>
    refine ⟨?_, ?_, ?_⟩
    · intro cs v rest h
      rw [scanOnce] at h
      cases h
    · intro cs vs rest h
      rw [scanElements] at h
      cases h
    · intro cs ms rest h
      rw [scanMembers] at h
      · cases h
      · simp
  | succ fuel ih =>
    obtain ⟨ihOnce, ihElements, ihMembers⟩ := ih
    refine ⟨?_, ?_, ?_⟩
    · intro cs v rest h hsettled
      cases cs with
      | nil =>
        rw [scanOnce] at h
        cases h
      | cons c cs =>
        rw [List.cons_append]
        rw [scanOnce] at h ⊢
        split at h
        · next hquote =>
          obtain ⟨⟨s, rest'⟩, hs, heq⟩ := Option.map_eq_some_iff.1 h
          cases heq
          rw [if_pos hquote, scanStr_append hs]
          rfl
        · next hquote =>
          rw [if_neg hquote]
          split at h
          · next hbrace =>
            rw [if_pos hbrace]
            cases hskip : skip cs with
            | nil =>
              rw [hskip] at h
              dsimp only at h
              rw [scanMembers_nil] at h
              cases h
            | cons d after =>
              rw [skip_append hskip]
              rw [hskip] at h
              split at h
              · next rest' heq =>
                cases heq
                cases h
                rfl
              · next hne =>
                obtain ⟨⟨ms, rest'⟩, hms, heq⟩ := Option.map_eq_some_iff.1 h
                cases heq
                have hmore := ihMembers _ _ _ hms
                rw [List.cons_append] at hmore
                split
                · next rest'' heq => exact absurd (by rw [(List.cons.inj heq).1]) (hne after)
                · rw [hmore]
                  rfl
          · next hbrace =>
            rw [if_neg hbrace]
            split at h
            · next hbracket =>
              rw [if_pos hbracket]
              cases hskip : skip cs with
              | nil =>
                rw [hskip] at h
                dsimp only at h
                rw [scanElements_nil] at h
                cases h
              | cons d after =>
                rw [skip_append hskip]
                rw [hskip] at h
                split at h
                · next rest' heq =>
                  cases heq
                  cases h
                  rfl
                · next hne =>
                  obtain ⟨⟨vs, rest'⟩, hvs, heq⟩ := Option.map_eq_some_iff.1 h
                  cases heq
                  have hmore := ihElements _ _ _ hvs
                  rw [List.cons_append] at hmore
                  split
                  · next rest'' heq => exact absurd (by rw [(List.cons.inj heq).1]) (hne after)
                  · rw [hmore]
                    rfl
            · next hbracket =>
              rw [if_neg hbracket]
              rcases hsettled with ⟨hends, hne⟩ | ⟨d, ⟨⟩, hd⟩
              · exact scanScalar_append h hends hne more
              · exact absurd hd (by tauto)
    · intro cs vs rest h
      rw [scanElements, Option.bind_eq_bind, Option.bind_eq_some_iff] at h
      obtain ⟨⟨value, rest'⟩, hvalue, h⟩ := h
      dsimp only at h
      split at h
      · next hclosed =>
        cases h
        have hends := ends_of_skip hclosed (by decide)
        exact scanElements_last (ihOnce _ _ _ hvalue (.inl hends)) (skip_append hclosed more)
      · next rest₁ hcomma =>
        rw [Option.bind_eq_bind, Option.bind_eq_some_iff] at h
        obtain ⟨⟨values, rest₂⟩, hvalues, h⟩ := h
        cases h
        have hends := ends_of_skip hcomma (by decide)
        exact scanElements_comma (ihOnce _ _ _ hvalue (.inl hends)) (skip_append hcomma more)
          (scan_skip_append (scanElements_nil fuel) (ihElements _ _ _) hvalues)
      · cases h
    · intro cs ms rest h
      rw [scanMembers.eq_def] at h
      split at h
      · next fuel' cs' heq =>
        cases heq
        rw [Option.bind_eq_bind, Option.bind_eq_some_iff] at h
        obtain ⟨⟨key, rest₁⟩, hkey, h⟩ := h
        dsimp only at h
        split at h
        · next rest₂ hcolon =>
          rw [Option.bind_eq_bind, Option.bind_eq_some_iff] at h
          obtain ⟨⟨value, rest₃⟩, hvalue, h⟩ := h
          dsimp only at h
          rw [List.cons_append]
          split at h
          · next hclosed =>
            cases h
            have hends := ends_of_skip hclosed (by decide)
            exact scanMembers_last (scanStr_append hkey more) (skip_append hcolon more)
              (scan_skip_append (scanOnce_nil fuel) (ihOnce _ _ _ · (.inl hends)) hvalue)
              (skip_append hclosed more)
          · next rest₄ hcomma =>
            rw [Option.bind_eq_bind, Option.bind_eq_some_iff] at h
            obtain ⟨⟨members, rest₅⟩, hmembers, h⟩ := h
            cases h
            have hends := ends_of_skip hcomma (by decide)
            exact scanMembers_comma (scanStr_append hkey more) (skip_append hcolon more)
              (scan_skip_append (scanOnce_nil fuel) (ihOnce _ _ _ · (.inl hends)) hvalue)
              (skip_append hcomma more)
              (scan_skip_append (scanMembers_nil fuel) (ihMembers _ _ _) hmembers)
          · cases h
        · cases h
      · cases h

/-- **A torn text is no JSON**: of what was written for a list, an object or a string, only the
whole is. -/
theorem eq_of_loads_prefix {style : Style} {v w : Json} {part : List Char} (hv : v.Plain style)
    (hopen : ∃ c ∈ (write style 0 v).head?, c = '"' ∨ c = '{' ∨ c = '[')
    (hpart : part <+: write style 0 v) (h : loads part = some w) :
    part = write style 0 v ∧ w = v := by
  obtain ⟨more, hmore⟩ := hpart
  have hlength := congrArg List.length hmore
  rw [List.length_append] at hlength
  have hfuel : 2 * part.length + 1 ≤ 2 * (write style 0 v).length + 1 := by omega
  have hfull := scanOnce_write style v 0 (2 * (write style 0 v).length) [] hv
    (by rintro c ⟨⟩) (by omega)
  rw [List.append_nil] at hfull
  obtain ⟨c, hc, hopen⟩ := hopen
  rw [loads_eq_of_le hfuel] at h
  split at h
  · cases h
  · split at h
    · next value rest hscan =>
      split at h
      · obtain rfl := Option.some.inj h
        cases part with
        | nil =>
          rw [show skip [] = [] from rfl, scanOnce_nil] at hscan
          cases hscan
        | cons d part =>
          obtain rfl : d = c := by
            rw [← hmore] at hc
            exact Option.some.inj hc
          have hskip : skip (d :: part) = d :: part := by
            refine List.dropWhile_cons_of_neg ?_
            rcases hopen with rfl | rfl | rfl
            all_goals
              decide
          rw [hskip] at hscan
          have hmoreScan := (scan_append _ more).1 _ _ _ hscan (.inr ⟨d, rfl, hopen⟩)
          rw [hmore, hfull] at hmoreScan
          obtain ⟨rfl, hnil⟩ := Prod.mk.inj (Option.some.inj hmoreScan)
          obtain ⟨-, rfl⟩ := List.append_eq_nil_iff.1 hnil.symm
          rw [List.append_nil] at hmore
          exact ⟨hmore, rfl⟩
      · cases h
    · cases h

end Json
