import VDevLab.Lib.JsonGrammar

/-!
# Texts that are cut

A scanner that has come to its end of a value does not look at what follows,
apart from characters a number or a word could go on with. So a text that
loads is not the beginning of one that goes on with a foreign character: the
longer text has data behind its value and does not load.
-/

namespace Json

open PyStr

/-- A character outside the printable ASCII range that is no blank either:
no token but a string can have it. -/
def Foreign (c : CodePoint) : Prop := (c.val < 0x20 ∨ 0x7e < c.val) ∧ isWs c = false

theorem Foreign.ne {b c : CodePoint} (hb : Foreign b) (hc : 0x20 ≤ c.val ∧ c.val ≤ 0x7e) :
    b ≠ c := by
  rintro rfl
  have := hb.1
  omega

theorem Foreign.not_digit {b : CodePoint} (hb : Foreign b) : isDigit b = false := by
  cases hd : isDigit b with
  | false => rfl
  | true =>
    simp only [isDigit, Bool.and_eq_true, decide_eq_true_eq] at hd
    exact absurd rfl (hb.ne (c := b) (by omega))

/-! ## Strings -/

theorem hex4_append {s rest : PyStr} {u : Nat} (h : hex4 s = some (u, rest)) (more : PyStr) :
    hex4 (s ++ more) = some (u, rest ++ more) := by
  match s with
  | [] | [_] | [_, _] | [_, _, _] => cases h
  | a :: b :: c :: d :: tail =>
    simp only [hex4, Option.bind_eq_bind, Option.bind_eq_some_iff, Option.pure_def,
      Option.some.injEq, Prod.mk.injEq] at h
    obtain ⟨a', ha, b', hb, c', hc, d', hd, rfl, rfl⟩ := h
    simp [hex4, ha, hb, hc, hd]

/-- A backslash that begins no escape stops the string. -/
theorem scanString_slash_error {fuel : Nat} {s : PyStr} (h : escape s = none) :
    scanString fuel (ch '\\' :: s) = .error .decode := by
  cases fuel with
  | zero => rfl
  | succ fuel => rw [scanString, if_neg (by decide), if_pos rfl, h]

theorem lowEscape_append {s rest : PyStr} {l : Nat} (h : lowEscape s = some (l, rest))
    (more : PyStr) : lowEscape (s ++ more) = some (l, rest ++ more) := by
  match s with
  | [] | [_] => cases h
  | a :: b :: s =>
    simp only [lowEscape, List.cons_append] at h ⊢
    split at h
    · next hab =>
      rw [if_pos hab]
      obtain ⟨hhex, hlow⟩ := Option.filter_eq_some_iff.mp h
      rw [hex4_append hhex]
      exact Option.filter_eq_some_iff.mpr ⟨rfl, hlow⟩
    · cases h

/-- In a string that ends, no low surrogate is only begun. -/
theorem lowEscape_none_append {s : PyStr} {fuel : Nat} {p : PyStr × PyStr}
    (hs : scanString fuel s = .ok p) (h : lowEscape s = none) (more : PyStr) :
    lowEscape (s ++ more) = none := by
  match s with
  | [] => cases fuel <;> cases hs
  | [a] =>
    by_cases ha : a = ch '\\'
    · subst ha
      rw [scanString_slash_error rfl] at hs
      cases hs
    · exact lowEscape_of_ne ha _
  | a :: b :: rest =>
    simp only [lowEscape, List.cons_append] at h ⊢
    by_cases hab : a = ch '\\' ∧ b = ch 'u'
    · rw [if_pos hab] at h ⊢
      obtain ⟨rfl, rfl⟩ := hab
      cases hhex : hex4 rest with
      | none =>
        have hescape : escape (ch 'u' :: rest) = none := by rw [escape, if_pos rfl, hhex]
        rw [scanString_slash_error hescape] at hs
        cases hs
      | some q =>
        obtain ⟨u, tail⟩ := q
        rw [hhex] at h
        rw [hex4_append hhex]
        simpa [Option.filter] using h
    · rw [if_neg hab]

theorem escape_append {s rest : PyStr} {d : CodePoint} (h : escape s = some (d, rest)) {fuel : Nat}
    {p : PyStr × PyStr} (hs : scanString fuel rest = .ok p) (more : PyStr) :
    escape (s ++ more) = some (d, rest ++ more) := by
  cases s with
  | nil => cases h
  | cons e s =>
    rw [List.cons_append]
    simp only [escape] at h ⊢
    split at h
    · next he =>
      rw [if_pos he]
      cases hhex : hex4 s with
      | none =>
        rw [hhex] at h
        cases h
      | some q =>
        obtain ⟨u, tail⟩ := q
        rw [hhex] at h
        rw [hex4_append hhex]
        simp only at h ⊢
        split at h
        · next hhigh =>
          rw [if_pos hhigh]
          cases hlow : lowEscape tail with
          | none =>
            rw [hlow] at h
            simp only [Option.some.injEq, Prod.mk.injEq] at h
            obtain ⟨rfl, rfl⟩ := h
            rw [lowEscape_none_append hs hlow]
          | some q =>
            obtain ⟨l, tail'⟩ := q
            rw [hlow] at h
            simp only [Option.some.injEq, Prod.mk.injEq] at h
            obtain ⟨rfl, rfl⟩ := h
            rw [lowEscape_append hlow]
        · next hhigh =>
          simp only [Option.some.injEq, Prod.mk.injEq] at h
          obtain ⟨rfl, rfl⟩ := h
          rw [if_neg hhigh]
    · next he =>
      rw [if_neg he]
      obtain ⟨c, hc, hcd⟩ := Option.map_eq_some_iff.mp h
      cases hcd
      rw [hc]
      rfl

theorem scanString_append {fuel : Nat} {s t rest : PyStr} (h : scanString fuel s = .ok (t, rest))
    (more : PyStr) {fuel' : Nat} (hfuel : fuel ≤ fuel') :
    scanString fuel' (s ++ more) = .ok (t, rest ++ more) := by
  induction fuel generalizing s t fuel' with
  | zero => cases h
  | succ fuel ih =>
    obtain ⟨fuel', rfl⟩ : ∃ f, fuel' = f + 1 := ⟨fuel' - 1, by omega⟩
    cases s with
    | nil => cases h
    | cons c s =>
      rw [List.cons_append]
      simp only [scanString] at h ⊢
      split at h
      · next hquote =>
        cases h
        rw [if_pos hquote]
      · next hquote =>
        rw [if_neg hquote]
        split at h
        · next hslash =>
          rw [if_pos hslash]
          cases hescape : escape s with
          | none =>
            rw [hescape] at h
            cases h
          | some p =>
            obtain ⟨d, tail⟩ := p
            rw [hescape] at h
            obtain ⟨q, hq, hqt⟩ := Check.map_eq_ok h
            cases hqt
            rw [escape_append hescape hq]
            simp only
            rw [ih hq (by omega)]
            rfl
        · next hslash =>
          rw [if_neg hslash]
          split at h
          · cases h
          · next hctl =>
            obtain ⟨q, hq, hqt⟩ := Check.map_eq_ok h
            cases hqt
            rw [if_neg hctl, ih hq (by omega)]
            rfl

/-! ## Numbers and words -/

/-- A run of characters ends before one that is not of its kind. -/
theorem span_append {α : Type} {p : α → Bool} {b : α} (hb : p b = false) (s q : List α) :
    (s ++ b :: q).takeWhile p = s.takeWhile p ∧
      (s ++ b :: q).dropWhile p = s.dropWhile p ++ b :: q := by
  induction s with
  | nil => simp [hb]
  | cons c s ih =>
    cases hc : p c with
    | false => simp [hc]
    | true =>
      obtain ⟨htake, hdrop⟩ := ih
      simp [hc, htake, hdrop]

/-- There is no value in an empty text. -/
theorem scanOnce_nil (lim : IntLimit) (fuel : Nat) : scanOnce lim fuel [] = .error .decode := by
  cases fuel <;> rfl

theorem scanElements_nil (lim : IntLimit) (fuel : Nat) (acc : List PyValue) :
    scanElements lim fuel [] acc = .error .decode := by
  cases fuel with
  | zero => rfl
  | succ fuel => rw [scanElements, scanOnce_nil]

theorem scanMembers_nil (lim : IntLimit) (fuel : Nat) (acc : PyDict) :
    scanMembers lim fuel [] acc = .error .decode := by
  cases fuel <;> rfl

section Cut

variable {b : CodePoint} (hb : Foreign b) (q : PyStr)

include hb

theorem scanInteger_append {s digits rest : PyStr} (h : scanInteger s = some (digits, rest)) :
    scanInteger (s ++ b :: q) = some (digits, rest ++ b :: q) := by
  cases s with
  | nil => cases h
  | cons c s =>
    obtain ⟨htake, hdrop⟩ := span_append hb.not_digit (c :: s) q
    rw [List.cons_append] at htake hdrop ⊢
    simp only [scanInteger] at h ⊢
    split at h
    · next hzero =>
      cases h
      rw [if_pos hzero]
    · next hzero =>
      rw [if_neg hzero]
      split at h
      · next hdigit =>
        cases h
        rw [if_pos hdigit, htake, hdrop]
      · cases h

theorem scanFraction_append (s : PyStr) :
    scanFraction (s ++ b :: q) = (scanFraction s).map fun p => (p.1, p.2 ++ b :: q) := by
  cases s with
  | nil =>
    have hpoint : b ≠ ch '.' := hb.ne (by decide)
    simp [scanFraction, hpoint]
  | cons c s =>
    obtain ⟨htake, hdrop⟩ := span_append hb.not_digit s q
    simp only [List.cons_append, scanFraction, htake, hdrop]
    split <;> rfl

theorem scanExponent_append (s : PyStr) :
    scanExponent (s ++ b :: q) = (scanExponent s).map fun p => (p.1, p.2 ++ b :: q) := by
  have hminus : b ≠ ch '-' := hb.ne (by decide)
  have hplus : b ≠ ch '+' := hb.ne (by decide)
  cases s with
  | nil =>
    have hlower : b ≠ ch 'e' := hb.ne (by decide)
    have hupper : b ≠ ch 'E' := hb.ne (by decide)
    simp [scanExponent, hlower, hupper]
  | cons e s =>
    cases s with
    | nil => simp [scanExponent, hminus, hplus, hb.not_digit]
    | cons c s =>
      -- the sign is inside `s`, and the digits end before `b`
      simp only [List.cons_append, scanExponent]
      by_cases hneg : c = ch '-'
      · obtain ⟨htake, hdrop⟩ := span_append hb.not_digit s q
        simp only [if_pos hneg, htake, hdrop]
        split <;> rfl
      · by_cases hpos : c = ch '+'
        · obtain ⟨htake, hdrop⟩ := span_append hb.not_digit s q
          simp only [if_neg hneg, if_pos hpos, htake, hdrop]
          split <;> rfl
        · obtain ⟨htake, hdrop⟩ := span_append hb.not_digit (c :: s) q
          rw [List.cons_append] at htake hdrop
          simp only [if_neg hneg, if_neg hpos, htake, hdrop]
          split <;> rfl

theorem scanUnsigned_append {lim : IntLimit} {neg : Bool} {s rest : PyStr} {v : PyValue}
    (h : scanUnsigned lim neg s = .ok (v, rest)) :
    scanUnsigned lim neg (s ++ b :: q) = .ok (v, rest ++ b :: q) := by
  unfold scanUnsigned at h ⊢
  cases hint : scanInteger s with
  | none =>
    rw [hint] at h
    cases h
  | some p =>
    obtain ⟨digits, tail⟩ := p
    rw [hint] at h
    rw [scanInteger_append hb q hint]
    simp only at h ⊢
    rw [scanFraction_append hb q, scanExponent_append hb q]
    cases hfrac : scanFraction tail with
    | none =>
      cases hexp : scanExponent tail with
      | none =>
        rw [hfrac, hexp] at h
        simp only [Option.map_none] at h ⊢
        split at h
        · cases h
        · cases h
          rfl
      | some e =>
        rw [hfrac, hexp] at h
        cases h
        rfl
    | some f =>
      rw [hfrac] at h
      simp only [Option.map_some] at h ⊢
      rw [scanExponent_append hb q]
      cases hexp : scanExponent f.2 with
      | none =>
        rw [hexp] at h
        cases h
        rfl
      | some e =>
        rw [hexp] at h
        cases h
        rfl

theorem scanNumber_append {lim : IntLimit} {s rest : PyStr} {v : PyValue}
    (h : scanNumber lim s = .ok (v, rest)) :
    scanNumber lim (s ++ b :: q) = .ok (v, rest ++ b :: q) := by
  cases s with
  | nil => cases h
  | cons c s =>
    rw [List.cons_append]
    simp only [scanNumber] at h ⊢
    split at h
    · next hminus =>
      rw [if_pos hminus]
      exact scanUnsigned_append hb q h
    · next hminus =>
      rw [if_neg hminus]
      exact scanUnsigned_append hb q h

omit hb in
theorem literal_append {word : PyStr} (hword : b ∉ word) (s : PyStr) :
    literal word (s ++ b :: q) = (literal word s).map (· ++ b :: q) := by
  induction word generalizing s with
  | nil => simp [literal]
  | cons d word ih =>
    simp only [List.mem_cons, not_or] at hword
    cases s with
    | nil => exact literal_of_ne (Ne.symm hword.1) word q
    | cons c s =>
      by_cases hdc : d = c
      · subst hdc
        have hword' := ih hword.2 s
        simp only [literal, List.isPrefixOf, beq_self_eq_true, Bool.true_and, List.cons_append,
          List.length_cons, List.drop_succ_cons] at hword' ⊢
        exact hword'
      · rw [List.cons_append, literal_of_ne hdc, literal_of_ne hdc]
        rfl

theorem scanLiteral_append (s : PyStr) :
    scanLiteral (s ++ b :: q) = (scanLiteral s).map fun p => (p.1, p.2 ++ b :: q) := by
  have hwords : ∀ word : PyStr, word.all (fun c => 0x20 ≤ c.val && c.val ≤ 0x7e) = true →
      literal word (s ++ b :: q) = (literal word s).map (· ++ b :: q) := by
    intro word hword
    apply literal_append
    intro hmem
    have hprintable := List.all_eq_true.mp hword b hmem
    simp only [Bool.and_eq_true, decide_eq_true_eq] at hprintable
    exact hb.ne hprintable rfl
  simp only [scanLiteral, hwords (py "null") (by decide), hwords (py "true") (by decide),
    hwords (py "false") (by decide), hwords (py "NaN") (by decide),
    hwords (py "Infinity") (by decide), hwords (py "-Infinity") (by decide), Option.map_or,
    Option.map_map]
  rfl

/-! ## Values -/

theorem skipWs_append {s rest : PyStr} {d : CodePoint} (h : skipWs s = d :: rest) :
    skipWs (s ++ b :: q) = d :: (rest ++ b :: q) := by
  rw [skipWs, (span_append hb.2 s q).2]
  rw [skipWs] at h
  rw [h]
  rfl

theorem scanKey_append {s key rest : PyStr} (h : scanKey s = .ok (key, rest))
    (hrest : rest ≠ []) : scanKey (s ++ b :: q) = .ok (key, rest ++ b :: q) := by
  cases s with
  | nil => cases h
  | cons c s =>
    rw [List.cons_append]
    simp only [scanKey] at h ⊢
    split at h
    · cases h
    · next hquote =>
      rw [if_neg hquote]
      split at h
      · cases h
      · next key' rest' hs =>
        rw [scanString_append hs (b :: q) (by simp)]
        simp only
        split at h
        · cases h
        · next d tail hskip =>
          rw [skipWs_append hb q hskip]
          simp only
          split at h
          · next hcolon =>
            cases h
            obtain ⟨e, more, hmore⟩ := List.exists_cons_of_ne_nil hrest
            rw [if_pos hcolon, skipWs_append hb q hmore, hmore]
            rfl
          · cases h

theorem scan_append {lim : IntLimit} (fuel : Nat) :
    (∀ {s rest v fuel'}, fuel ≤ fuel' → scanOnce lim fuel s = .ok (v, rest) →
      scanOnce lim fuel' (s ++ b :: q) = .ok (v, rest ++ b :: q)) ∧
    (∀ {s rest acc v fuel'}, fuel ≤ fuel' → scanElements lim fuel s acc = .ok (v, rest) →
      scanElements lim fuel' (s ++ b :: q) acc = .ok (v, rest ++ b :: q)) ∧
    (∀ {s rest acc v fuel'}, fuel ≤ fuel' → scanMembers lim fuel s acc = .ok (v, rest) →
      scanMembers lim fuel' (s ++ b :: q) acc = .ok (v, rest ++ b :: q)) := by
  induction fuel with
  | zero => simp [scanOnce, scanElements, scanMembers]
  | succ fuel ih =>
    obtain ⟨ihOnce, ihElements, ihMembers⟩ := ih
    refine ⟨?_, ?_, ?_⟩
    · intro s rest v fuel' hfuel h
      obtain ⟨fuel', rfl⟩ : ∃ f, fuel' = f + 1 := ⟨fuel' - 1, by omega⟩
      cases s with
      | nil => cases h
      | cons c s =>
        rw [List.cons_append]
        simp only [scanOnce] at h ⊢
        split at h
        · next hquote =>
          obtain ⟨p, hp, hpv⟩ := Check.map_eq_ok h
          cases hpv
          rw [if_pos hquote, scanString_append hp (b :: q) (by simp)]
          rfl
        · next hquote =>
          rw [if_neg hquote]
          split at h
          · next hbrace =>
            rw [if_pos hbrace]
            split at h
            · next d tail hskip =>
              rw [skipWs_append hb q hskip]
              simp only
              split at h
              · next hclose =>
                cases h
                rw [if_pos hclose]
              · next hclose =>
                rw [if_neg hclose]
                exact ihMembers (by omega) h
            · cases h
          · next hbrace =>
            rw [if_neg hbrace]
            split at h
            · next hbracket =>
              rw [if_pos hbracket]
              split at h
              · next d tail hskip =>
                rw [skipWs_append hb q hskip]
                simp only
                split at h
                · next hclose =>
                  cases h
                  rw [if_pos hclose]
                · next hclose =>
                  rw [if_neg hclose]
                  exact ihElements (by omega) h
              · cases h
            · next hbracket =>
              rw [if_neg hbracket]
              have hliteral := scanLiteral_append hb q (c :: s)
              rw [List.cons_append] at hliteral
              rw [hliteral]
              split at h
              · next p hp =>
                cases h
                rw [hp]
                rfl
              · next hp =>
                rw [hp]
                exact scanNumber_append hb q h
    · intro s rest acc v fuel' hfuel h
      obtain ⟨fuel', rfl⟩ : ∃ f, fuel' = f + 1 := ⟨fuel' - 1, by omega⟩
      simp only [scanElements] at h ⊢
      split at h
      · cases h
      · next w tail hw =>
        rw [ihOnce (by omega) hw]
        simp only
        split at h
        · cases h
        · next d more hskip =>
          rw [skipWs_append hb q hskip]
          simp only
          split at h
          · next hclose =>
            cases h
            rw [if_pos hclose]
          · next hclose =>
            rw [if_neg hclose]
            split at h
            · next hcomma =>
              rw [if_pos hcomma]
              cases hmore : skipWs more with
              | nil =>
                rw [hmore, scanElements_nil] at h
                cases h
              | cons e tail =>
                rw [hmore] at h
                rw [skipWs_append hb q hmore]
                exact ihElements (by omega) h
            · cases h
    · intro s rest acc v fuel' hfuel h
      obtain ⟨fuel', rfl⟩ : ∃ f, fuel' = f + 1 := ⟨fuel' - 1, by omega⟩
      simp only [scanMembers] at h ⊢
      split at h
      · cases h
      · next key tail hkey =>
        split at h
        · cases h
        · next w tail' hw =>
          have hne : tail ≠ [] := by
            rintro rfl
            rw [scanOnce_nil] at hw
            cases hw
          rw [scanKey_append hb q hkey hne]
          simp only
          rw [ihOnce (by omega) hw]
          simp only
          split at h
          · cases h
          · next d more hskip =>
            rw [skipWs_append hb q hskip]
            simp only
            split at h
            · next hclose =>
              cases h
              rw [if_pos hclose]
            · next hclose =>
              rw [if_neg hclose]
              split at h
              · next hcomma =>
                rw [if_pos hcomma]
                cases hmore : skipWs more with
                | nil =>
                  rw [hmore, scanMembers_nil] at h
                  cases h
                | cons e tail =>
                  rw [hmore] at h
                  rw [skipWs_append hb q hmore]
                  exact ihMembers (by omega) h
              · cases h

/-- A text that loads has nothing but blanks behind its value, so it does not
load with a foreign character behind it. -/
theorem loads_append {lim : IntLimit} {s : PyStr} {v : PyValue} (h : loads lim s = .ok v) :
    loads lim (s ++ b :: q) = .error .decode := by
  unfold loads at h ⊢
  split at h
  · cases h
  · next hbom =>
    split at h
    · cases h
    · next w rest hscan =>
      split at h
      · next hend =>
        cases hskip : skipWs s with
        | nil =>
          rw [hskip, scanOnce_nil] at hscan
          cases hscan
        | cons c tail =>
          have hhead : (s ++ b :: q).head? ≠ some 0xFEFF := by
            cases s with
            | nil => cases hskip
            | cons d s => exact hbom
          rw [hskip] at hscan
          have hlen : s.length ≤ (s ++ b :: q).length := by simp
          have hmore := (scan_append hb q s.length).1 hlen hscan
          have hrest : skipWs (rest ++ b :: q) ≠ [] := by
            rw [skipWs, (span_append hb.2 rest q).2]
            simp
          rw [if_neg hhead, skipWs_append hb q hskip, ← List.cons_append, hmore]
          simp only
          rw [if_neg hrest]
      · cases h

end Cut

/-- The beginning of a JSON text, up to a foreign character, does not load. -/
theorem Rfc8259.cut {s q : PyStr} {b : CodePoint} {v : PyValue} (h : Rfc8259 (s ++ b :: q) v)
    (hb : Foreign b) (lim : IntLimit) (w : PyValue) : Json.loads lim s ≠ .ok w := by
  intro hload
  have hwhole := loads_append hb q hload
  rcases h.loads lim with hok | hvalue
  · cases hwhole.symm.trans hok
  · cases hwhole.symm.trans hvalue

end Json
