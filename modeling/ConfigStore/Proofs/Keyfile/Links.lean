import ConfigStore.Proofs.Keyfile.File

/-! What a write does to links. Where a path leads to something, that is replaced and the links on the way are kept. Where
it leads to nothing, no more than one link is followed, and whatever its target names is replaced, be it a link. -/

namespace ConfigStore

/-- A write that succeeds keeps all links, unless there is no path without links to what its path leads to, and its path is
that of a link which cannot be read, or whose target is the path of a link in turn. -/
theorem writeKeyfile_keeps_links_iff {files after : FileSystem} (anchored : files.Anchored) {conditions : Conditions}
    {store : Keyfile} {path : String} {events : List Event}
    (done : writeKeyfile files store path conditions = (.ok (), after, events)) :
    (∀ place aim, files.node? place = some (.link aim) → after.node? place = some (.link aim)) ↔
      ¬(files.canonical path = .error .notFound ∧ ∃ aim, files.readLink? path = some aim ∧
        (conditions.troubles.unread = true ∨ ∃ next, files.readLink? (Path.beside path aim) = some next)) := by
  rcases writeKeyfile_cases files store path conditions with ⟨error, failed⟩ | ⟨target, made, replaces, written⟩
  · rw [failed] at done
    cases done
  · rw [written] at done
    cases done
    obtain ⟨replaced, sound, directory, name, entry, plain, rfl⟩ := replaceFile_spec replaces
    -- A link goes only when it is by the name that is replaced.
    have kept : (∀ place aim, files.node? place = some (.link aim) →
        (files.put (directory ++ [name])
          (.file (conditions.troubles.takenMode files target) (Utf8.encode store.render))).node? place = some (.link aim)) ↔
        ∀ aim, files.node? (directory ++ [name]) ≠ some (.link aim) := by
      constructor
      · intro all aim found
        have still := all _ aim found
        rw [FileSystem.node?_put_self] at still
        cases still
      · intro unlinked place aim found
        have apart : place ≠ directory ++ [name] := by
          rintro rfl
          exact unlinked aim found
        rw [FileSystem.node?_put_other (FileSystem.isSome_of_hasDirectory entry.inside) apart]
        exact found
    rw [kept]
    rcases FileSystem.replacedPath_cases replaced with resolved | ⟨missing, ⟨unlinked, rfl⟩ | ⟨read, aim, link, rfl⟩⟩
    · -- A path without links leads to a file, which is what is replaced.
      obtain ⟨-, -, mode, content, found⟩ := FileSystem.runs_of_canonical anchored resolved entry plain
      simp [found, resolved]
    · -- What is replaced is what the path names, which is a link only if that cannot be read.
      have named : (∀ aim, files.node? (directory ++ [name]) ≠ some (.link aim)) ↔
          ¬∃ aim, files.readLink? target = some aim := by
        simp only [not_exists, Ne, entry.readLink?_iff sound]
      rw [named]
      refine not_congr ⟨fun ⟨aim, link⟩ => ⟨missing, aim, link, ?_⟩, fun ⟨_, aim, link, _⟩ => ⟨aim, link⟩⟩
      refine .inl (unlinked.resolve_right fun unread => ?_)
      rw [link] at unread
      cases unread
    · -- The path beside the link is the one that is replaced.
      simp only [missing, link, read, true_and, Option.some.injEq, exists_eq_left', not_exists, Ne, Bool.false_eq_true,
        false_or, entry.readLink?_iff sound]

/-- A root directory with a link to a link that leads to nothing. -/
def rootWithChain : FileSystem :=
  (FileSystem.put {} ["config"] (.link "l2")).put ["l2"] (.link "l3")

/-- A link whose target is missing is kept when it is written through. -/
theorem writeKeyfile_keeps_l2 :
    rootWithChain.Anchored ∧
    ∃ after events, writeKeyfile rootWithChain ⟨[⟨"a", [⟨"k", "new"⟩]⟩]⟩ "l2" {} = (.ok (), after, events) ∧
      after.node? ["l2"] = some (.link "l3") := by
  have lone : (FileSystem.put {} ["config"] (.link "l2")).Anchored :=
    @FileSystem.Anchored.put {} [] "config" FileSystem.anchored_empty rfl rfl _
  have anchored : rootWithChain.Anchored := @FileSystem.Anchored.put _ [] "l2" lone rfl rfl _
  have works : (writeKeyfile rootWithChain ⟨[⟨"a", [⟨"k", "new"⟩]⟩]⟩ "l2" {}).1 = .ok () := by decide +kernel
  rcases made : writeKeyfile rootWithChain ⟨[⟨"a", [⟨"k", "new"⟩]⟩]⟩ "l2" {} with ⟨result, after, events⟩
  rw [made] at works
  obtain rfl := works
  refine ⟨anchored, after, events, rfl, ?_⟩
  refine (writeKeyfile_keeps_links_iff anchored made).2 ?_ ["l2"] "l3" (by decide +kernel)
  rintro ⟨-, aim, link, again⟩
  have target : rootWithChain.readLink? "l2" = some "l3" := by decide +kernel
  obtain rfl := Option.some.inj (target.symm.trans link)
  have missing : rootWithChain.readLink? (Path.beside "l2" "l3") = none := by decide +kernel
  rw [missing] at again
  rcases again with unread | ⟨next, further⟩
  · cases unread
  · cases further

/-- A link in the middle of such a chain is replaced by the file. -/
theorem writeKeyfile_replaces_l2 :
    (writeKeyfile rootWithChain ⟨[⟨"a", [⟨"k", "new"⟩]⟩]⟩ "config" {}).1 = .ok () ∧
      rootWithChain.node? ["l2"] = some (.link "l3") ∧
      (writeKeyfile rootWithChain ⟨[⟨"a", [⟨"k", "new"⟩]⟩]⟩ "config" {}).2.1.node? ["l2"] =
        some (.file 0o644 (Utf8.encode "[a]\nk=new\n")) := by
  decide +kernel

end ConfigStore
