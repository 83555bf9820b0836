import ConfigStore.Proofs.Keyfile.Report

/-! Lines that follow on others never change what those made up. Only the section that the last header opened is still
open, and it gets further entries at its end. -/

namespace ConfigStore

open Utf8

/-- What becomes of a keyfile when further lines follow on those that made it up. -/
inductive Continues (lines : List (List Char)) (store later : Keyfile) : Prop where
  /-- All sections stay as they are, and the others come behind them. -/
  | kept {more : List Section} (shown : later.sections = store.sections ++ more)
  /-- The last header of the lines opened the last section, which gets entries at its end. The sections in front of it
  stay as they are, and the others come behind it. -/
  | grown {front more : List Section} {part : Section} {place : Nat} {added : List Entry}
    (last : store.sections = front ++ [part]) (opened : OpenedAt lines place part.name)
    (shown : later.sections = front ++ part.extend added :: more)

namespace Continues

variable {lines : List (List Char)} {store later : Keyfile} {name key value : String}

/-- A setting keeps its value. -/
theorem get? (continued : Continues lines store later) (found : store.get? name key = some value) :
    later.get? name key = some value := by
  -- The section is found where it was, and in it the entry.
  obtain ⟨part, within, inner⟩ := Option.bind_eq_some_iff.1 found
  rw [Keyfile.section?] at within
  cases continued with
  | kept shown =>
    rw [Keyfile.get?, Keyfile.section?, shown, List.find?_append, within]
    exact inner
  | @grown front more last place added final opened shown =>
    rw [final, List.find?_append] at within
    rw [Keyfile.get?, Keyfile.section?, shown, List.find?_append]
    cases before : front.find? (Section.hasName name) with
    | some first =>
      -- A section in front of the last one is as it was.
      rw [before, Option.some_or, Option.some.injEq] at within
      subst within
      exact inner
    | none =>
      -- The last section begins with the entries that it had.
      rw [before, Option.none_or, List.find?_singleton, Option.ite_none_right_eq_some, Option.some.injEq] at within
      obtain ⟨named, rfl⟩ := within
      obtain ⟨entry, place, rfl⟩ := Option.map_eq_some_iff.1 inner
      rw [Section.find?] at place
      have own : (last.extend added).find? key = some entry := by
        rw [Section.find?, Section.extend, List.find?_append, place, Option.some_or]
      rw [Option.none_or, List.find?_cons_of_pos (show (last.extend added).hasName name = true from named)]
      exact congrArg (Option.map Entry.value) own

end Continues

/-- A header adds a section if its name is new, whatever headers come behind it. -/
theorem exists_outline_behind {lines : List Line} {front back : List Section} {part : Section}
    (shown : blocks lines = front ++ part :: back) :
    ∃ behind, (outline lines).sections = (firsts Section.sameTitle front).map Section.withFirsts ++
      (if front.any (Section.hasName part.name) then [] else [part.withFirsts]) ++ behind := by
  -- The blocks up to this one are kept as they would be without the others.
  have same : front.any (Section.sameTitle · part) = front.any (Section.hasName part.name) := rfl
  have own : (if front.any (Section.hasName part.name) then [] else [part]).map Section.withFirsts =
      if front.any (Section.hasName part.name) then [] else [part.withFirsts] := by
    split
    · rfl
    · rfl
  rw [outline, shown, List.append_cons, firsts_append, firsts_append_singleton, List.map_append, List.map_append, same,
    own]
  exact ⟨_, rfl⟩

/-- Whatever lines follow, what the first ones made up continues. -/
theorem outline_append_continues (lines more : List (List Char)) :
    Continues lines (outline (lines.map Line.ofChars)) (outline ((lines ++ more).map Line.ofChars)) := by
  rw [List.map_append]
  rcases List.eq_nil_or_concat (blocks (lines.map Line.ofChars)) with headless | ⟨front, part, shown⟩
  · -- Without a header, there is no section yet.
    have empty : (outline (lines.map Line.ofChars)).sections = [] := by
      rw [outline, headless]
      rfl
    exact .kept (by rw [empty, List.nil_append])
  · rw [List.concat_eq_append] at shown
    have before := outline_of_last shown
    obtain ⟨behind, later⟩ := exists_outline_behind (blocks_append_of_last shown (more.map Line.ofChars))
    rw [show (part.extend (entriesBelow (more.map Line.ofChars))).name = part.name from rfl] at later
    cases used : front.any (Section.hasName part.name) with
    | true =>
      -- The last header repeats an earlier one, so the entries behind it are dropped.
      rw [used, if_pos rfl, List.append_nil] at before
      rw [used, if_pos rfl, List.append_nil, ← before] at later
      exact .kept later
    | false =>
      rw [used, if_neg Bool.false_ne_true] at before
      obtain ⟨added, extended⟩ := part.exists_withFirsts_extend (entriesBelow (more.map Line.ofChars))
      rw [used, if_neg Bool.false_ne_true, extended, List.append_assoc] at later
      obtain ⟨place, opened, -⟩ := exists_openedAt shown used
      exact .grown before opened later

/-- A text that follows on a closed one continues what that was loaded into. -/
theorem ofText_append_continues (limit : Nat) {front : String} (closed : ClosedBy '\n' front.toList) (back : String) :
    Continues (textLines limit front) (Keyfile.ofText limit front) (Keyfile.ofText limit (front ++ back)) := by
  -- The lines of both together are those of each, but for the empty one between them.
  obtain ⟨pieces, own, both⟩ := closed.separate_append
  have continued := outline_append_continues (textLines limit front) (textLines limit back)
  have whole : outline ((textLines limit front ++ textLines limit back).map Line.ofChars) =
      outline ((textLines limit (front ++ back)).map Line.ofChars) := by
    simp only [textLines, String.toList_append, both, own, List.map_append, List.append_assoc, outline]
    exact congrArg (fun parts => Keyfile.withFirsts ⟨parts⟩) (blocks_append_void ..)
  rwa [whole, ← ofText_eq_outline, ← ofText_eq_outline] at continued

/-- Bytes that follow on closed ones continue what those were loaded into. -/
theorem loadBytes_append_continues (limit : Nat) {front : List UInt8} (closed : ClosedBy newlineByte front)
    (back : List UInt8) :
    Continues (readLines limit front) (Keyfile.loadBytes limit front).1 (Keyfile.loadBytes limit (front ++ back)).1 := by
  obtain ⟨pieces, own, both⟩ := closed.separate_append
  have continued := outline_append_continues (readLines limit front) (readLines limit back)
  have whole : readLines limit front ++ readLines limit back = readLines limit (front ++ back) := by
    rw [readLines, readLines, readLines, byteLines_of_front (both back), byteLines_of_closed own, List.map_append]
  rwa [whole, ← loadBytes_eq_outline, ← loadBytes_eq_outline] at continued

/-- Whatever follows on a text that is empty or ends in a newline, what that is loaded into stays: all its sections
come first and as they were, but that the last one may have further entries at its end, and this only if the last
header of the text opened it. Every value that was there is still found. The same holds of bytes with a limit that a
buffer may have, however those and the ones that follow arrive in chunks. -/
theorem load_append_continues (limit : Nat) :
    (∀ front back : String, ClosedBy '\n' front.toList →
      Continues (textLines limit front) (Keyfile.ofText limit front) (Keyfile.ofText limit (front ++ back)) ∧
        ∀ name key value, (Keyfile.ofText limit front).get? name key = some value →
          (Keyfile.ofText limit (front ++ back)).get? name key = some value) ∧
    ∀ (chunks again : List (List UInt8)) (back : List UInt8), limit ≤ Keyfile.greatestCapacity →
      ClosedBy newlineByte chunks.flatten → again.flatten = chunks.flatten ++ back →
      ∃ store later, (Keyfile.load limit ⟨chunks, none⟩).1 = some (.ok store) ∧
        (Keyfile.load limit ⟨again, none⟩).1 = some (.ok later) ∧
        Continues (readLines limit chunks.flatten) store later ∧
        ∀ name key value, store.get? name key = some value → later.get? name key = some value := by
  refine ⟨fun front back closed => ?_, fun chunks again back held closed shown => ?_⟩
  · have continued := ofText_append_continues limit closed back
    exact ⟨continued, fun name key value => continued.get?⟩
  · have continued := loadBytes_append_continues limit closed back
    rw [← shown] at continued
    refine ⟨_, _, ?_, ?_, continued, fun name key value => continued.get?⟩
    · rw [Keyfile.load_eq_loadBytes held]
    · rw [Keyfile.load_eq_loadBytes held]

/-- A section that is open gets further entries, and one that is repeated does not. -/
theorem load_append_continues_open :
    (Keyfile.ofText 9 ("[a]\nk=v\n" ++ "l=w\n[A]\nm=x\n")).get? "A" "K" = some "v" ∧
      ∃ later, (Keyfile.load 9 ⟨[encode "[a]\nk=", encode "v\nl=w\n[A]\nm=x\n"], none⟩).1 = some (.ok later) ∧
        later.get? "A" "K" = some "v" := by
  refine ⟨((load_append_continues 9).1 "[a]\nk=v\n" "l=w\n[A]\nm=x\n" (by decide)).2 "A" "K" "v" (by decide), ?_⟩
  obtain ⟨store, later, before, after, -, kept⟩ := (load_append_continues 9).2 [encode "[a]\nk=v\n"]
    [encode "[a]\nk=", encode "v\nl=w\n[A]\nm=x\n"] (encode "l=w\n[A]\nm=x\n") (by decide) (by decide)
    (by decide)
  refine ⟨later, after, kept "A" "K" "v" ?_⟩
  rw [Keyfile.load_eq_loadBytes (by decide), Option.some.injEq, Except.ok.injEq] at before
  rw [← before]
  decide

end ConfigStore
