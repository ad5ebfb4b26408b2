import FleetSizing.Json.Reader
import FleetSizing.Json.Writer
import FleetSizing.Proofs.Text.Hex
/-!
# Strings in JSON

A string is read as it was before it was quoted, character by character: quotes, backslashes
and control characters from their escapes, all others from themselves.
-/

namespace FleetSizing.Json

open Text

variable {c d : Char}

theorem stringBody_codePoint {c₁ c₂ c₃ c₄ : Char}
    (h : (ofHexDigits [c₁, c₂, c₃, c₄]).bind ofCodePoint = some c) (rest : List Char) :
    stringBody ('\\' :: 'u' :: c₁ :: c₂ :: c₃ :: c₄ :: rest) =
      (stringBody rest).map fun (s, r) => (c :: s, r) := by
  obtain ⟨n, hn, hc⟩ := Option.bind_eq_some_iff.1 h
  by_cases hpair : ∃ d₁ d₂ d₃ d₄ r, rest = '\\' :: 'u' :: d₁ :: d₂ :: d₃ :: d₄ :: r
  · obtain ⟨d₁, d₂, d₃, d₄, r, rfl⟩ := hpair
    rw [stringBody]
    simp only [hn, hc]
  · simp only [not_exists] at hpair
    rw [stringBody.eq_4 _ _ _ _ _ fun d₁ d₂ d₃ d₄ r h => hpair d₁ d₂ d₃ d₄ r h, h]

theorem stringBody_hexDigits (hc : c < ' ') (rest : List Char) :
    stringBody ('\\' :: 'u' :: (hexDigits false 4 c.toNat ++ rest)) =
      (stringBody rest).map fun (s, r) => (c :: s, r) := by
  have hsmall : c.toNat < 32 := UInt32.lt_iff_toNat_lt.1 hc
  have hread : (ofHexDigits (hexDigits false 4 c.toNat)).bind ofCodePoint = some c :=
    ofCodePoint_hexDigits false (by omega)
  match hexDigits false 4 c.toNat, length_hexDigits false 4 c.toNat, hread with
  | [_, _, _, _], _, hread => exact stringBody_codePoint hread rest

theorem stringBody_letter (hd : d ≠ 'u') (h : unescape d = some c) (rest : List Char) :
    stringBody ('\\' :: d :: rest) = (stringBody rest).map fun (s, r) => (c :: s, r) := by
  rw [stringBody.eq_5 d rest (fun _ _ _ _ _ _ _ _ _ hu _ => hd hu) fun _ _ _ _ _ hu _ => hd hu, h]

theorem stringBody_plain (hquote : c ≠ '"') (hslash : c ≠ '\\') (hcontrol : ¬c < ' ')
    (rest : List Char) :
    stringBody (c :: rest) = (stringBody rest).map fun (s, r) => (c :: s, r) := by
  rw [stringBody.eq_6 c rest hquote (fun _ _ _ _ _ _ _ _ _ h _ => hslash h)
    (fun _ _ _ _ _ h _ => hslash h) fun _ _ h _ => hslash h]
  exact if_neg (not_or.2 ⟨hcontrol, hslash⟩)

theorem stringBody_escape (c : Char) (rest : List Char) :
    stringBody (escape c ++ rest) = (stringBody rest).map fun (s, r) => (c :: s, r) := by
  unfold escape
  split
  · exact stringBody_letter (by decide) rfl rest
  · exact stringBody_letter (by decide) rfl rest
  · exact stringBody_letter (by decide) rfl rest
  · exact stringBody_letter (by decide) rfl rest
  · exact stringBody_letter (by decide) rfl rest
  · exact stringBody_letter (by decide) rfl rest
  · exact stringBody_letter (by decide) rfl rest
  next hquote hslash _ _ _ _ _ =>
    split
    next hcontrol => exact stringBody_hexDigits hcontrol rest
    next hcontrol => exact stringBody_plain hquote hslash hcontrol rest

theorem stringBody_quoted (cs rest : List Char) :
    stringBody (cs.flatMap escape ++ '"' :: rest) = some (cs, rest) := by
  induction cs with
  | nil => rfl
  | cons c cs ih =>
      rw [List.flatMap_cons, List.append_assoc, stringBody_escape, ih, Option.map_some]

end FleetSizing.Json
