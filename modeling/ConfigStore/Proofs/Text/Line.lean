import ConfigStore.Proofs.Text.Utf8
import ConfigStore.Text.Line

/-! Cutting a line leaves a start of it that fits, and all of it if it fits as a whole. -/

namespace ConfigStore

open Utf8

/-- A cut leaves a start. -/
theorem takeBytes_start (limit : Nat) (chars : List Char) : takeBytes limit chars <+: chars := by
  -- Characters are taken as long as they fit.
  induction chars generalizing limit with
  | nil => exact List.nil_prefix
  | cons char rest ih =>
    rw [takeBytes]
    split
    · exact List.cons_prefix_cons.2 ⟨rfl, ih _⟩
    · exact List.nil_prefix

/-- What a cut leaves fits. -/
theorem length_takeBytes (limit : Nat) (chars : List Char) :
    (encodeChars (takeBytes limit chars)).length ≤ limit := by
  -- Each character that is taken leaves less for the others.
  induction chars generalizing limit with
  | nil => simp [takeBytes]
  | cons char rest ih =>
    rw [takeBytes]
    split
    · next fits =>
      have more := ih (limit - char.utf8Size)
      rw [encodeChars_cons, List.length_append, String.length_utf8EncodeChar]
      omega
    · simp

/-- A text that fits is not cut. -/
theorem takeBytes_of_fits {limit : Nat} {chars : List Char} (fits : (encodeChars chars).length ≤ limit) :
    takeBytes limit chars = chars := by
  -- Each character fits, and the others fit into what is left.
  induction chars generalizing limit with
  | nil => rfl
  | cons char rest ih =>
    simp only [encodeChars_cons, List.length_append, String.length_utf8EncodeChar] at fits
    rw [takeBytes, if_pos (by omega), ih (by omega)]

/-- Nothing is left when nothing fits. -/
theorem takeBytes_zero (chars : List Char) : takeBytes 0 chars = [] := by
  cases chars with
  | nil => rfl
  | cons char rest =>
    have sized := char.utf8Size_pos
    rw [takeBytes, if_neg (by omega)]

/-- A cut that a start of a text just fits leaves that start. -/
theorem takeBytes_append (front rest : List Char) : takeBytes (encodeChars front).length (front ++ rest) = front := by
  -- No character is so small that another one fits behind.
  induction front with
  | nil => exact takeBytes_zero rest
  | cons char front ih =>
    have size : (encodeChars (char :: front)).length = char.utf8Size + (encodeChars front).length := by
      rw [encodeChars_cons, List.length_append, String.length_utf8EncodeChar]
    rw [size, List.cons_append, takeBytes, if_pos (by omega), Nat.add_sub_cancel_left, ih]

/-- What is read of a line is what a cut between characters leaves, but for a replacement at its end. -/
theorem cutChars_eq (limit : Nat) (chars : List Char) :
    cutChars limit chars = takeBytes limit chars ∨ cutChars limit chars = takeBytes limit chars ++ [replacement] := by
  -- The two differ where a character does not fit, which is the end.
  induction chars generalizing limit with
  | nil => exact .inl rfl
  | cons char rest ih =>
    rw [cutChars, takeBytes]
    split
    · exact (ih (limit - char.utf8Size)).imp (congrArg _) (congrArg _)
    · split
      · exact .inl rfl
      · exact .inr rfl

/-- What is read of a line that was cut is cut no further. -/
theorem cutChars_cutChars (limit : Nat) (chars : List Char) :
    cutChars limit (cutChars limit chars) = cutChars limit chars := by
  induction chars generalizing limit with
  | nil => rfl
  | cons char rest ih =>
    rw [cutChars]
    split
    · next fits => rw [cutChars, if_pos fits, ih]
    · split
      · rfl
      · next nonzero =>
        -- The cut goes through the replacement again, or that fits.
        rw [cutChars, if_neg nonzero]
        split <;> rfl

end ConfigStore
