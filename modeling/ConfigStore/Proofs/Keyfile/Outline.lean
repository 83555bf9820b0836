import ConfigStore.Keyfile.Source
import ConfigStore.Proofs.Text.Cut

/-! What a list of lines says as a whole: its headers with the lines up to the next header, where the first of
several of a name stands for all. Loading line by line comes to the same. -/

namespace ConfigStore

/-- The items that differ from every earlier one. -/
def firsts {α : Type} (same : α → α → Bool) : List α → List α
  | [] => []
  | item :: rest => item :: (firsts same rest).filter fun other => !same item other

section Firsts

variable {α : Type} {same : α → α → Bool}

/-- Further items are kept unless they are the same as one in front of them. -/
theorem firsts_append (front back : List α) :
    firsts same (front ++ back) =
      firsts same front ++ (firsts same back).filter fun item => !front.any (same · item) := by
  -- Each item in front takes away those that are the same.
  induction front with
  | nil => exact (List.filter_eq_self.2 fun _ _ => rfl).symm
  | cons head rest ih =>
    simp only [List.cons_append, firsts, ih, List.filter_append, List.filter_filter, List.any_cons, Bool.not_or]

/-- A last item is kept unless it is the same as one in front of it. -/
theorem firsts_append_singleton (items : List α) (item : α) :
    firsts same (items ++ [item]) =
      firsts same items ++ if items.any (same · item) then [] else [item] := by
  rw [firsts_append]
  cases known : items.any (same · item) with
  | true => simp [firsts, known]
  | false => simp [firsts, known]

/-- Items that are dropped are the same as one that is kept. -/
theorem any_firsts {test : α → Bool}
    (respects : ∀ one other, same one other = true → test other = true → test one = true)
    (items : List α) : (firsts same items).any test = items.any test := by
  -- Whatever a dropped item passes, the head that is the same passes too.
  induction items with
  | nil => rfl
  | cons head rest ih =>
    rw [firsts, List.any_cons, List.any_cons, ← ih, Bool.eq_iff_iff]
    simp only [Bool.or_eq_true, List.any_eq_true, List.mem_filter, Bool.not_eq_true']
    constructor
    · rintro (here | ⟨other, ⟨kept, -⟩, passes⟩)
      · exact .inl here
      · exact .inr ⟨other, kept, passes⟩
    · rintro (here | ⟨other, kept, passes⟩)
      · exact .inl here
      · by_cases dropped : same head other = true
        · exact .inl (respects head other dropped passes)
        · exact .inr ⟨other, ⟨kept, by simpa using dropped⟩, passes⟩

/-- The first item that passes a test is kept. -/
theorem find?_firsts {test : α → Bool}
    (respects : ∀ one other, same one other = true → test other = true → test one = true)
    (items : List α) : (firsts same items).find? test = items.find? test := by
  induction items with
  | nil => rfl
  | cons head rest ih =>
    rw [firsts, List.find?_cons, List.find?_cons, List.find?_filter, ← ih]
    split
    · rfl
    · next fails =>
      -- An item that passes is not the same as one that does not.
      refine congrArg (List.find? · _) (funext fun other => ?_)
      by_cases passes : test other = true
      · have different : same head other ≠ true := fun dropped => by simp [respects head other dropped passes] at fails
        simp [passes, different]
      · simp [passes]

/-- Nothing is dropped from items of which no two are the same. -/
theorem firsts_of_pairwise {items : List α} (different : items.Pairwise fun one other => same one other = false) :
    firsts same items = items := by
  -- Nothing behind the head is the same as it, at any place.
  induction items with
  | nil => rfl
  | cons head rest ih =>
    obtain ⟨here, behind⟩ := List.pairwise_cons.1 different
    rw [firsts, ih behind, List.filter_eq_self.2 fun other member => by simp [here other member]]

/-- No two of the items that are kept are the same. -/
theorem pairwise_firsts (items : List α) :
    (firsts same items).Pairwise fun one other => same one other = false := by
  -- What is the same as the head has been dropped behind it.
  induction items with
  | nil => exact .nil
  | cons head rest ih =>
    refine List.pairwise_cons.2 ⟨fun other member => ?_, ih.filter _⟩
    simpa using (List.mem_filter.1 member).2

/-- Only items of a list are kept. -/
theorem firsts_sublist (items : List α) : (firsts same items).Sublist items := by
  -- Items are dropped, and none is moved.
  induction items with
  | nil => exact .slnil
  | cons head rest ih => exact (List.filter_sublist.trans ih).cons_cons head

/-- Items that are told apart by a feature alone are dropped as their features are. -/
theorem map_firsts {β : Type} {same : β → β → Bool} (feature : α → β) (items : List α) :
    (firsts (fun one other => same (feature one) (feature other)) items).map feature =
      firsts same (items.map feature) := by
  -- The head takes the same items away, before or after they are reduced to the feature.
  induction items with
  | nil => rfl
  | cons head rest ih => simp [firsts, ← ih, List.filter_map, Function.comp_def]

end Firsts

/-- Whether the keys of two entries are the same. -/
def Entry.sameKey (one other : Entry) : Bool :=
  sameName one.key other.key

namespace Section

/-- Whether the names of two sections are the same. -/
def sameTitle (one other : Section) : Bool :=
  sameName one.name other.name

/-- A section with another entry at its end. -/
def add (part : Section) (entry : Entry) : Section :=
  { part with entries := part.entries ++ [entry] }

/-- A section with further entries at its end. -/
def extend (part : Section) (entries : List Entry) : Section :=
  { part with entries := part.entries ++ entries }

/-- A section with the first entry of each key. -/
def withFirsts (part : Section) : Section :=
  { part with entries := firsts Entry.sameKey part.entries }

@[simp] theorem add_name (part : Section) (entry : Entry) : (part.add entry).name = part.name := rfl

/-- Of further entries, some come behind those that are kept. -/
theorem exists_withFirsts_extend (part : Section) (entries : List Entry) :
    ∃ added, (part.extend entries).withFirsts = part.withFirsts.extend added :=
  ⟨_, congrArg (Section.mk part.name) (firsts_append part.entries entries)⟩

/-- A further entry is kept if its key is new. -/
theorem withFirsts_add (part : Section) (entry : Entry) :
    (part.add entry).withFirsts =
      if part.withFirsts.contains entry.key then part.withFirsts else part.withFirsts.add entry := by
  -- A key is among those that are kept if it is there at all.
  have kept : part.withFirsts.contains entry.key = part.entries.any (Entry.sameKey · entry) :=
    any_firsts (fun _ _ same passes => sameName_trans same passes) part.entries
  rw [kept]
  simp only [add, withFirsts, firsts_append_singleton]
  split <;> simp

end Section

/-- The entries of lines up to the next header. -/
def entriesBelow : List Line → List Entry
  | [] => []
  | .header _ :: _ => []
  | .entry key value :: rest => ⟨key, value⟩ :: entriesBelow rest
  | .void :: rest => entriesBelow rest

/-- The headers of lines, each with the entries up to the next header. -/
def blocks : List Line → List Section
  | [] => []
  | .header name :: rest => ⟨name, entriesBelow rest⟩ :: blocks rest
  | .entry _ _ :: rest => blocks rest
  | .void :: rest => blocks rest

/-- A keyfile with the first section of each name, and in it the first entry of each key. -/
def Keyfile.withFirsts (store : Keyfile) : Keyfile :=
  ⟨(firsts Section.sameTitle store.sections).map Section.withFirsts⟩

/-- The keyfile that lines make up: of the headers of a name the first one, and below it of the entries of a key
the first one. -/
def outline (lines : List Line) : Keyfile :=
  ⟨(firsts Section.sameTitle (blocks lines)).map Section.withFirsts⟩

/-- Lines behind a header do not reach what is above it. -/
theorem entriesBelow_append_of_header {lines : List Line} (headed : blocks lines ≠ []) (more : List Line) :
    entriesBelow (lines ++ more) = entriesBelow lines := by
  -- The header is met before the lines that are added.
  induction lines with
  | nil => exact absurd rfl headed
  | cons line rest ih =>
    cases line with
    | header name => rfl
    | entry key value => exact congrArg (List.cons _) (ih headed)
    | void => exact ih headed

/-- Without a header in between, the entries of further lines follow. -/
theorem entriesBelow_append {lines : List Line} (headless : blocks lines = []) (more : List Line) :
    entriesBelow (lines ++ more) = entriesBelow lines ++ entriesBelow more := by
  -- No line of the front stops the entries.
  induction lines with
  | nil => rfl
  | cons line rest ih =>
    cases line with
    | header name => cases headless
    | entry key value => exact congrArg (List.cons _) (ih headless)
    | void => exact ih headless

/-- Without a header in front, the blocks are those of further lines. -/
theorem blocks_append_of_none {lines : List Line} (headless : blocks lines = []) (more : List Line) :
    blocks (lines ++ more) = blocks more := by
  -- The lines in front are passed one by one without a header.
  induction lines with
  | nil => rfl
  | cons line rest ih =>
    cases line with
    | header other => cases headless
    | entry key value => exact ih headless
    | void => exact ih headless

/-- The entries of further lines go into the last section up to the next header, which begins a section of its own. -/
theorem blocks_append_of_last {lines : List Line} {front : List Section} {part : Section}
    (shown : blocks lines = front ++ [part]) (more : List Line) :
    blocks (lines ++ more) = front ++ part.extend (entriesBelow more) :: blocks more := by
  induction lines generalizing front with
  | nil => simp [blocks] at shown
  | cons line rest ih =>
    cases line with
    | header name =>
      simp only [List.cons_append, blocks] at shown ⊢
      cases front with
      | nil =>
        -- The section of this header is the last one.
        obtain ⟨rfl, headless⟩ := List.cons.inj shown
        rw [blocks_append_of_none headless, entriesBelow_append headless]
        rfl
      | cons first others =>
        obtain ⟨rfl, later⟩ := List.cons.inj shown
        rw [ih later, entriesBelow_append_of_header (by simp [later])]
        rfl
    | entry _ _ => exact ih shown
    | void => exact ih shown

/-- Sections are side by side when no entry of the back goes into the last one of the front. -/
theorem blocks_append {more : List Line} (empty : entriesBelow more = []) (lines : List Line) :
    blocks (lines ++ more) = blocks lines ++ blocks more := by
  rcases List.eq_nil_or_concat (blocks lines) with headless | ⟨front, part, shown⟩
  · rw [blocks_append_of_none headless, headless, List.nil_append]
  · rw [List.concat_eq_append] at shown
    rw [blocks_append_of_last shown, shown, empty, Section.extend, List.append_nil, List.append_assoc]
    rfl

/-- An entry at the end that is in no section says nothing. -/
theorem blocks_append_orphan {lines : List Line} (headless : blocks lines = []) (key value : String) :
    blocks (lines ++ [.entry key value]) = [] :=
  blocks_append_of_none headless _

/-- An entry at the end goes into the last section. -/
theorem blocks_append_entry {lines : List Line} {front : List Section} {part : Section}
    (shown : blocks lines = front ++ [part]) (key value : String) :
    blocks (lines ++ [.entry key value]) = front ++ [part.add ⟨key, value⟩] :=
  blocks_append_of_last shown _

/-- An empty line says nothing, wherever it stands. -/
theorem blocks_append_void (lines more : List Line) : blocks (lines ++ .void :: more) = blocks (lines ++ more) := by
  -- Neither the entries of the last section nor the headers behind it change.
  rcases List.eq_nil_or_concat (blocks lines) with headless | ⟨front, part, shown⟩
  · rw [blocks_append_of_none headless, blocks_append_of_none headless]
    rfl
  · rw [List.concat_eq_append] at shown
    rw [blocks_append_of_last shown, blocks_append_of_last shown]
    rfl

/-- Changing the item behind a front leaves the front as it is. -/
theorem modify_length_append {α : Type} (front : List α) (item : α) (change : α → α) :
    (front ++ [item]).modify front.length change = front ++ [change item] := by
  induction front with
  | nil => rfl
  | cons head rest ih => simpa using ih

/-- What a loader holds after some lines: the keyfile that they make up, and as its target the last section, if
that is the first one of its name. -/
structure Loader.Follows (loader : Loader) (lines : List Line) : Prop where
  /-- The store is what the lines make up. -/
  store : loader.store = outline lines
  /-- The target is where the last header leads. -/
  target : match loader.target with
    | .nowhere => blocks lines = []
    | .discard => ∃ front part, blocks lines = front ++ [part] ∧ front.any (Section.hasName part.name) = true
    | .inside index => ∃ front part, blocks lines = front ++ [part] ∧
        front.any (Section.hasName part.name) = false ∧ index = (firsts Section.sameTitle front).length

/-- A name is used in a keyfile if one of the headers has it. -/
theorem outline_contains (lines : List Line) (name : String) :
    (outline lines).contains name = (blocks lines).any (Section.hasName name) := by
  -- A header that is dropped has the name of one that is kept.
  have kept : (firsts Section.sameTitle (blocks lines)).any (Section.hasName name) =
      (blocks lines).any (Section.hasName name) :=
    any_firsts (fun _ _ same passes => sameName_trans same passes) (blocks lines)
  rw [← kept, outline, Keyfile.contains, List.any_map]
  rfl

/-- The last header adds a section if its name is new. -/
theorem outline_of_last {lines : List Line} {front : List Section} {part : Section}
    (shown : blocks lines = front ++ [part]) :
    (outline lines).sections = (firsts Section.sameTitle front).map Section.withFirsts ++
      if front.any (Section.hasName part.name) then [] else [part.withFirsts] := by
  -- The last block is dropped if one in front of it has its name.
  have same : front.any (Section.sameTitle · part) = front.any (Section.hasName part.name) := rfl
  rw [outline, shown, firsts_append_singleton, List.map_append, same]
  split <;> rfl

namespace Loader.Follows

variable {loader : Loader} {lines : List Line}

/-- A loader that has seen nothing holds nothing. -/
theorem nothing : Follows {} [] :=
  ⟨rfl, rfl⟩

/-- A header opens a section if its name is new, and closes whatever was open otherwise. -/
theorem takeHeader (follows : loader.Follows lines) (number : Nat) (name : String) :
    (loader.take number (.header name)).1.Follows (lines ++ [.header name]) := by
  -- The loader knows a name exactly when some block above has it.
  have shown : blocks (lines ++ [.header name]) = blocks lines ++ [⟨name, []⟩] := blocks_append rfl lines
  have used := outline_contains lines name
  have sections := outline_of_last shown
  simp only [Loader.take, Keyfile.pushSection?, follows.store]
  by_cases known : (outline lines).contains name = true
  · rw [if_pos known]
    rw [known] at used
    rw [if_pos used.symm, List.append_nil] at sections
    exact ⟨congrArg Keyfile.mk sections.symm, _, _, shown, used.symm⟩
  · rw [if_neg known]
    rw [Bool.not_eq_true] at known
    rw [known] at used
    rw [if_neg (ne_true_of_eq_false used.symm)] at sections
    exact ⟨congrArg Keyfile.mk sections.symm, _, _, shown, used.symm, by simp [outline]⟩

/-- An entry goes into the section that is open, unless its key is used there. -/
theorem takeEntry (follows : loader.Follows lines) (number : Nat) (key value : String) :
    (loader.take number (.entry key value)).1.Follows (lines ++ [.entry key value]) := by
  have target := follows.target
  have store := follows.store
  unfold Loader.take
  cases open_ : loader.target with
  | nowhere =>
    rw [open_] at target
    have headless := blocks_append_orphan target key value
    exact ⟨by rw [store, outline, outline, target, headless], by simp only [open_, headless]⟩
  | discard =>
    rw [open_] at target
    obtain ⟨front, part, shown, used⟩ := target
    have grown := blocks_append_entry shown key value
    refine ⟨?_, by simpa only [open_] using ⟨front, _, grown, used⟩⟩
    -- The section that grows is one that is dropped.
    have before := outline_of_last shown
    have after := outline_of_last grown
    rw [if_pos used] at before
    rw [Section.add_name, if_pos used, ← before] at after
    rw [store]
    exact congrArg Keyfile.mk after.symm
  | inside index =>
    rw [open_] at target
    obtain ⟨front, part, shown, fresh, rfl⟩ := target
    have grown := blocks_append_entry shown key value
    have before := outline_of_last shown
    have after := outline_of_last grown
    rw [if_neg (ne_true_of_eq_false fresh)] at before
    rw [Section.add_name, if_neg (ne_true_of_eq_false fresh), Section.withFirsts_add] at after
    -- The open section is the last one.
    have here : (outline lines).sectionAt? (firsts Section.sameTitle front).length = some part.withFirsts := by
      simp [Keyfile.sectionAt?, before]
    simp only [store, here, Section.insertNew?]
    by_cases known : part.withFirsts.contains key = true
    · rw [if_pos known]
      rw [if_pos known, ← before] at after
      refine ⟨?_, by simpa only [open_] using ⟨front, _, grown, fresh, rfl⟩⟩
      rw [store]
      exact congrArg Keyfile.mk after.symm
    · rw [if_neg known]
      rw [if_neg known] at after
      refine ⟨?_, by simpa only [open_] using ⟨front, _, grown, fresh, rfl⟩⟩
      refine congrArg Keyfile.mk (Eq.trans ?_ after.symm)
      have count : (firsts Section.sameTitle front).length =
          ((firsts Section.sameTitle front).map Section.withFirsts).length := by simp
      rw [before, count, modify_length_append]
      rfl

/-- Whatever a line says, the loader follows. -/
theorem take (follows : loader.Follows lines) (number : Nat) (line : Line) :
    (loader.take number line).1.Follows (lines ++ [line]) := by
  -- An empty line adds no block.
  cases line with
  | header name => exact follows.takeHeader number name
  | entry key value => exact follows.takeEntry number key value
  | void =>
    have same : blocks (lines ++ [.void]) = blocks lines := by
      rw [blocks_append_void, List.append_nil]
    exact ⟨by rw [outline, same]; exact follows.store, by rw [same]; exact follows.target⟩

/-- The loader follows lines of characters. -/
theorem takeAll (follows : loader.Follows lines) (number : Nat) (texts : List (List Char)) :
    (loader.takeAll number texts).1.Follows (lines ++ texts.map Line.ofChars) := by
  -- The lines that were followed grow by one line at a time.
  induction texts generalizing loader lines number with
  | nil => simpa [Loader.takeAll] using follows
  | cons text rest ih =>
    have more := ih (follows.take number (Line.ofChars text)) (number + 1)
    simpa [Loader.takeAll] using more

/-- The loader follows lines of bytes. -/
theorem takeLines (follows : loader.Follows lines) (limit number : Nat) (texts : List (List UInt8)) :
    (loader.takeLines limit number texts).1.Follows
      (lines ++ texts.map fun text => Line.ofChars (Utf8.decode (text.take limit))) := by
  -- The lines that were followed grow by one line at a time, cut to the limit.
  induction texts generalizing loader lines number with
  | nil => simpa [Loader.takeLines] using follows
  | cons text rest ih =>
    have more := ih (follows.take number (Line.ofChars (Utf8.decode (text.take limit)))) (number + 1)
    simpa [Loader.takeLines, Loader.takeKept] using more

end Loader.Follows

/-- The lines of a text as far as they are looked at. -/
def textLines (limit : Nat) (text : String) : List (List Char) :=
  (separate '\n' text.toList).map (takeBytes limit)

/-- The lines of bytes as they are read. -/
def readLines (limit : Nat) (bytes : List UInt8) : List (List Char) :=
  (byteLines bytes).map fun line => Utf8.decode (line.take limit)

/-- A text is loaded line by line, as far as the lines are looked at. -/
theorem loadText_eq_takeAll (limit : Nat) (text : String) :
    Keyfile.loadText limit text =
      ((Loader.takeAll {} 1 (textLines limit text)).1.store, (Loader.takeAll {} 1 (textLines limit text)).2) := by
  rw [Keyfile.loadText, filterMap_cutLine?]
  rfl

/-- A text comes to what its lines make up. -/
theorem ofText_eq_outline (limit : Nat) (text : String) :
    Keyfile.ofText limit text = outline ((textLines limit text).map Line.ofChars) := by
  have follows := Loader.Follows.nothing.takeAll 1 (textLines limit text)
  rw [Keyfile.ofText, loadText_eq_takeAll]
  exact follows.store

/-- Bytes come to what their lines make up. -/
theorem loadBytes_eq_outline (limit : Nat) (bytes : List UInt8) :
    (Keyfile.loadBytes limit bytes).1 = outline ((readLines limit bytes).map Line.ofChars) := by
  -- A fresh loader has followed no lines.
  have follows := Loader.Follows.nothing.takeLines limit 1 (byteLines bytes)
  rw [readLines, List.map_map]
  exact follows.store

/-- Every value is found as before when only the first section of each name and the first entry of each key are
left. -/
theorem Keyfile.get?_withFirsts (store : Keyfile) (name key : String) :
    store.withFirsts.get? name key = store.get? name key := by
  -- Dropping doubled sections and entries never drops the first match.
  have titles : (firsts Section.sameTitle store.sections).find? (Section.hasName name) =
      store.sections.find? (Section.hasName name) :=
    find?_firsts (fun _ _ same passes => sameName_trans same passes) store.sections
  have keys : ∀ part : Section, part.withFirsts.get? key = part.get? key := fun part =>
    congrArg (Option.map Entry.value)
      (find?_firsts (fun _ _ same passes => sameName_trans same passes) part.entries)
  rw [get?, get?, withFirsts, section?, section?, ← titles, List.find?_map]
  have same : Section.hasName name ∘ Section.withFirsts = Section.hasName name := rfl
  rw [same]
  cases (firsts Section.sameTitle store.sections).find? (Section.hasName name) with
  | none => rfl
  | some part => exact keys part

/-- The value of a key is that of its first entry below the first header of the name. -/
theorem outline_get? (lines : List Line) (name key : String) :
    (outline lines).get? name key =
      ((blocks lines).find? (Section.hasName name)).bind (Section.get? · key) :=
  Keyfile.get?_withFirsts ⟨blocks lines⟩ name key

end ConfigStore
