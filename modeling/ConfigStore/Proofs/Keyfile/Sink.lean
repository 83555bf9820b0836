import ConfigStore.Proofs.Keyfile.Writer

/-! A keyfile that is written piece by piece is its text. A sink that takes only so many bytes gets just the start of
that text, however the pieces fall and however much of each the sink takes at a time. -/

namespace ConfigStore

open Utf8

/-- The pieces of a section are its text. -/
theorem Section.join_texts (part : Section) : String.join part.texts = part.render := by
  -- Each entry is written as a key, a mark, a value and a newline.
  have entries : String.join (part.entries.flatMap fun entry => [entry.key, "=", entry.value, "\n"]) =
      String.join (part.entries.map Entry.render) := by
    induction part.entries with
    | nil => rfl
    | cons entry rest ih =>
      rw [List.flatMap_cons, List.map_cons, String.join_append, String.join_cons, ih]
      simp [Entry.render, String.append_assoc]
  rw [texts, String.join_append, entries, render]
  simp [String.append_assoc]

/-- The pieces of sections are what is added to a text, if they are told whether the text is empty. -/
theorem append_join_sectionTexts (written : String) (parts : List Section) :
    written ++ String.join (sectionTexts written.isEmpty parts) = renderOnto written parts := by
  induction parts generalizing written with
  | nil => simp [sectionTexts, renderOnto]
  | cons part rest ih =>
    rw [sectionTexts, renderOnto]
    by_cases unused : part.entries.isEmpty = true
    · rw [if_pos unused, if_pos unused, ih]
    · -- A section leaves something written, so the next ones are not the first.
      rw [if_neg unused, if_neg unused, ← ih, isEmpty_append_render, String.join_append, String.join_append,
        Section.join_texts]
      by_cases first : written.isEmpty = true
      · simp [first, String.append_assoc]
      · simp [first, String.append_assoc]

/-- The bytes of texts one after the other are those of the texts together. -/
theorem encode_join (texts : List String) : encode (String.join texts) = texts.flatMap encode := by
  -- No character is spread over two texts.
  induction texts with
  | nil => rfl
  | cons text rest ih =>
    rw [String.join_cons, List.flatMap_cons, ← ih]
    simp [encode]

/-- The bytes of the pieces of a keyfile are those of its text. -/
theorem flatMap_encode_sectionTexts (store : Keyfile) :
    (sectionTexts true store.sections).flatMap encode = encode store.render := by
  -- Nothing is written before the first piece.
  have whole := append_join_sectionTexts "" store.sections
  rw [String.empty_append] at whole
  rw [← encode_join, Keyfile.render, ← whole]
  rfl

namespace Sink

/-- A sink after it has taken some bytes: they are behind what it had, its room has shrunk by them, and it fails as
it did. -/
structure Took (before after : Sink) (bytes : List UInt8) : Prop where
  /-- The bytes come behind those from before. -/
  taken : after.taken = before.taken ++ bytes
  /-- The bytes use up room. -/
  room : after.room = before.room.map (· - bytes.length)
  /-- The fault for want of room stays. -/
  fullFault : after.fullFault = before.fullFault
  /-- Whether it fails at the end stays. -/
  failsAtEnd : after.failsAtEnd = before.failsAtEnd
  /-- The fault at the end stays. -/
  endFault : after.endFault = before.endFault

variable {sink middle after : Sink} {bytes more : List UInt8} {room : Nat}

/-- A sink that is left as it is has taken nothing. -/
theorem Took.refl (sink : Sink) : sink.Took sink [] :=
  ⟨by simp, by simp, rfl, rfl, rfl⟩

/-- Bytes that are taken in two steps are taken together. -/
theorem Took.trans (first : sink.Took middle bytes) (second : middle.Took after more) :
    sink.Took after (bytes ++ more) := by
  -- Room that is used up twice is used up by the sum.
  refine ⟨?_, ?_, second.fullFault.trans first.fullFault, second.failsAtEnd.trans first.failsAtEnd,
    second.endFault.trans first.endFault⟩
  · rw [second.taken, first.taken, List.append_assoc]
  · rw [second.room, first.room, Option.map_map, List.length_append]
    exact congrArg (Option.map · sink.room) (funext fun room => Nat.sub_sub ..)

/-- What a sink accepts in one write is taken. -/
theorem took_accept (sink : Sink) (bytes : List UInt8) : sink.Took (sink.accept bytes) bytes :=
  ⟨rfl, rfl, rfl, rfl, rfl⟩

/-- The room that is left. -/
theorem Took.room_eq (took : sink.Took after bytes) (limited : sink.room = some room) :
    after.room = some (room - bytes.length) := by
  rw [took.room, limited]
  rfl

/-- A write takes no more than there is, neither of bytes nor of room, and nothing only for want of either. -/
theorem share_spec (limited : sink.room = some room) (offered : Nat) :
    sink.share offered ≤ offered ∧ sink.share offered ≤ room ∧
      (sink.share offered = 0 → offered = 0 ∨ room = 0) := by
  rw [share, limited]
  cases sink.strides with
  | nil =>
    simp only
    omega
  | cons stride rest =>
    simp only
    omega

/-- Writing bytes until all are taken or the sink is full leaves as many of them in the sink as it has room for, and
succeeds if that is all of them. -/
theorem writeAll_spec (limited : sink.room = some room) (bytes : List UInt8) :
    (sink.writeAll bytes).1 = (if bytes.length ≤ room then .ok () else .error sink.fullFault) ∧
      sink.Took (sink.writeAll bytes).2 (bytes.take room) := by
  -- Each write leaves fewer bytes, and as much less room.
  induction size : bytes.length using Nat.strongRecOn generalizing sink bytes room with
  | ind count ih =>
    rw [writeAll.eq_def]
    cases bytes with
    | nil =>
      rw [← size, List.take_nil]
      exact ⟨(if_pos (Nat.zero_le room)).symm, .refl sink⟩
    | cons byte rest =>
      obtain ⟨some_, within, none_⟩ := share_spec limited (rest.length + 1)
      rw [List.length_cons] at size
      simp only
      by_cases full : sink.share (rest.length + 1) = 0
      · -- There is something to take, so it is room that is wanting.
        have noRoom : room = 0 := (none_ full).resolve_left (Nat.succ_ne_zero _)
        rw [if_pos full, noRoom, List.take_zero, if_neg (by omega)]
        exact ⟨rfl, .refl sink⟩
      · rw [if_neg full]
        generalize sink.share (rest.length + 1) = share at some_ within full
        have length : ((byte :: rest).take share).length = share := by
          rw [List.length_take, List.length_cons]
          omega
        have took := took_accept sink ((byte :: rest).take share)
        have left := took.room_eq limited
        rw [length] at left
        have fewer : ((byte :: rest).drop share).length = count - share := by
          rw [List.length_drop, List.length_cons, size]
        obtain ⟨result, behind⟩ := ih (count - share) (by omega) left ((byte :: rest).drop share) fewer
        refine ⟨?_, ?_⟩
        · -- What is left fits into the room that is left if the whole fits.
          rw [result, took.fullFault]
          exact if_congr (by omega) rfl rfl
        · have whole : (byte :: rest).take room =
              (byte :: rest).take share ++ ((byte :: rest).drop share).take (room - share) := by
            rw [← List.take_add, Nat.add_sub_cancel' within]
          rw [whole]
          exact took.trans behind

/-- Writing texts one after the other leaves as many of their bytes in the sink as it has room for, and succeeds if
that is all of them. -/
theorem writeTexts_spec (limited : sink.room = some room) (texts : List String) :
    (sink.writeTexts texts).1 =
        (if (texts.flatMap encode).length ≤ room then .ok () else .error sink.fullFault) ∧
      sink.Took (sink.writeTexts texts).2 ((texts.flatMap encode).take room) := by
  induction texts generalizing sink room with
  | nil =>
    rw [List.flatMap_nil, List.take_nil]
    exact ⟨(if_pos (Nat.zero_le room)).symm, .refl sink⟩
  | cons text rest ih =>
    obtain ⟨result, took⟩ := writeAll_spec limited (encode text)
    rw [writeTexts, List.flatMap_cons, List.length_append]
    rcases written : sink.writeAll (encode text) with ⟨outcome, next⟩
    rw [written] at result took
    simp only at result took
    by_cases fits : (encode text).length ≤ room
    · -- The first text is taken whole, and the others go into the room behind it.
      rw [if_pos fits] at result
      rw [List.take_of_length_le fits] at took
      obtain ⟨resultRest, tookRest⟩ := ih (took.room_eq limited)
      rw [result, List.take_append, List.take_of_length_le fits]
      refine ⟨?_, took.trans tookRest⟩
      rw [resultRest, took.fullFault]
      exact if_congr (by omega) rfl rfl
    · -- The sink is full within the first text, and the others are not tried.
      rw [if_neg fits] at result
      rw [result, if_neg (by omega), List.take_append_of_le_length (by omega)]
      exact ⟨rfl, took⟩

end Sink

/-- A keyfile that is written into a sink with room for so many bytes arrives as just so many first bytes of its text.
It is written without an error exactly when the text fits and the sink can finish, and otherwise the error is the
sink's own. -/
theorem writeStream_delivers (store : Keyfile) (sink : Sink) (room : Nat) :
    (store.writeStream { sink with room := some room }).2.taken =
        sink.taken ++ (encode store.render).take room ∧
      (store.writeStream { sink with room := some room }).1 =
        if room < (encode store.render).length then .error (.stream sink.fullFault)
        else if sink.failsAtEnd then .error (.stream sink.endFault) else .ok () := by
  have limited : { sink with room := some room }.room = some room := rfl
  obtain ⟨result, took⟩ := Sink.writeTexts_spec limited (sectionTexts true store.sections)
  rw [flatMap_encode_sectionTexts] at result took
  rw [Keyfile.writeStream, Keyfile.write]
  rcases written : Sink.writeTexts { sink with room := some room } (sectionTexts true store.sections) with
    ⟨outcome, next⟩
  rw [written] at result took
  simp only at result took
  by_cases fits : (encode store.render).length ≤ room
  · -- Everything is taken, so it is the end that decides.
    rw [if_pos fits] at result
    subst result
    rw [if_neg (by omega)]
    refine ⟨took.taken, ?_⟩
    have ends : next.failsAtEnd = sink.failsAtEnd := took.failsAtEnd
    have fault : next.endFault = sink.endFault := took.endFault
    simp only [ends, fault]
    cases sink.failsAtEnd with
    | true => rfl
    | false => rfl
  · rw [if_neg fits] at result
    subst result
    rw [if_pos (by omega)]
    exact ⟨took.taken, rfl⟩

end ConfigStore
