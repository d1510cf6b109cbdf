import Mathlib.Data.List.Basic
import SparqlFormat.Proofs.Requests
import SparqlFormat.Source.Snapshot

/-!
# Files in memory

A shelf and a tree differ in what they make of a name, and in the one reason that each has for not
reading what is there: a name on a shelf may be barred, and a path in a tree may lead to a
directory (`Shelf.lacks_unreadableFile_iff`, `Tree.lacks_unreadableFile_iff`).

A path in a tree is followed one component at a time. Each component leaves a directory for a place
where something lies, so that this is true of the place where the whole path ends. A relative path
ends where the path ends that is made absolute by the working directory.
-/

namespace SparqlFormat

variable {argument name : Argument} {error : ReadError} {input : Except ReadError (List UInt8)}

/-! ## Shelves -/

namespace Shelf

variable {s : Shelf}

lemma read_eq_error_of_has (here : s.has name = true) : s.read name = .error error ↔
    s.unreadable.contains name = true ∧ error = .accessDenied name := by
  unfold read
  cases barred : s.unreadable.contains name with
  | true => simp [eq_comm]
  | false =>
    obtain ⟨data, found⟩ : ∃ data, s.contents.lookup name = some data := by
      rw [has, barred, Bool.or_false] at here
      exact Option.isSome_iff_exists.1 here
    simp [found]

/-- Only a barred name on a shelf is not read. -/
theorem lacks_unreadableFile_iff : (s.access input).Lacks argument (.unreadableFile name error) ↔
    argument ≠ inputArgument ∧ s.has argument = true ∧ name = argument ∧
      s.unreadable.contains argument = true ∧ error = .accessDenied argument := by
  constructor
  · rintro (_ | ⟨resolved, refused⟩)
    cases refused with
    | file failed =>
      cases resolved with
      | file notInput here => exact ⟨notInput, here, rfl, (read_eq_error_of_has here).1 failed⟩
  · rintro ⟨notInput, here, rfl, barred, rfl⟩
    exact .unreadable (.file notInput here) (.file ((read_eq_error_of_has here).2 ⟨barred, rfl⟩))

end Shelf

/-! ## Trees -/

namespace Tree

variable {t : Tree} {p : Path} {place next : List Argument}

lemma read_eq_error_of_found (here : (t.find? p).isSome = true) :
    t.read p = .error error ↔
      t.find? p = some .directory ∧ error = .isDirectory p.toArgument := by
  obtain ⟨entry, found⟩ := Option.isSome_iff_exists.1 here
  unfold read
  cases entry with
  | file data => simp [found]
  | directory => simp [found, eq_comm]

/-- Only a directory in a tree is not read. -/
theorem lacks_unreadableFile_iff : (t.access input).Lacks argument (.unreadableFile name error) ↔
    argument ≠ inputArgument ∧ name = argument ∧
      t.find? (Path.ofArgument argument) = some .directory ∧
      error = .isDirectory (Path.ofArgument argument).toArgument := by
  constructor
  · rintro (_ | ⟨resolved, refused⟩)
    cases refused with
    | file failed =>
      cases resolved with
      | file notInput here => exact ⟨notInput, rfl, (read_eq_error_of_found here).1 failed⟩
  · rintro ⟨notInput, rfl, found, rfl⟩
    have here : (t.find? (Path.ofArgument name)).isSome = true := by rw [found]; rfl
    exact .unreadable (.file notInput here)
      (.file ((read_eq_error_of_found here).2 ⟨found, rfl⟩))

lemma isSome_entryAt? : (t.entryAt? place).isSome = true ↔ ∃ e ∈ t.entries, place <+: e.1 := by
  unfold entryAt?
  split
  case h_1 entry found =>
    have mem : (place, entry) ∈ t.entries := by
      obtain ⟨before, after, whole, -⟩ := List.lookup_eq_some_iff.1 found
      rw [whole]
      exact List.mem_append_right _ List.mem_cons_self
    exact iff_of_true rfl ⟨_, mem, List.prefix_rfl⟩
  case h_2 =>
    simp only [Option.isSome_ite, List.any_eq_true, List.isPrefixOf_iff_prefix]

/-- A component leads to a place where something lies. -/
lemma isSome_of_descend {component : Argument} (h : t.descend place component = some next) :
    (t.entryAt? next).isSome = true := by
  dsimp only [descend] at h
  split_ifs at h with notDirectory isDotDot there
  · -- what lies at the place, or below it, lies below the place above it too
    obtain rfl := Option.some.inj h
    have above : (t.entryAt? place).isSome = true := by
      rw [bne_iff_ne, not_not] at notDirectory
      rw [notDirectory]
      rfl
    obtain ⟨entry, mem, below⟩ := isSome_entryAt?.1 above
    exact isSome_entryAt?.2 ⟨entry, mem, (List.dropLast_prefix place).trans below⟩
  · obtain rfl := Option.some.inj h
    exact there

/-- A path leads to a place where something lies, if it starts at one. -/
theorem isSome_of_follow? (root : (t.entryAt? []).isSome = true)
    (here : (t.entryAt? t.here.components).isSome = true) (h : t.follow? p = some place) :
    (t.entryAt? place).isSome = true := by
  obtain ⟨start, components⟩ := p
  unfold follow? at h
  rcases List.eq_nil_or_concat components with rfl | ⟨before, last, rfl⟩
  · obtain rfl := Option.some.inj h
    split
    · exact here
    · exact root
  · rw [List.concat_eq_append, List.foldl_append] at h
    obtain ⟨place', -, descended⟩ := Option.bind_eq_some_iff.1 h
    exact isSome_of_descend descended

/-- A path leads where it leads when it is made absolute by the working directory, which its URI is
made of. -/
theorem follow?_absolute (rooted : t.here.root ≠ .relative)
    (here : t.follow? t.here = some t.here.components) (p : Path) :
    t.follow? (Path.absolute t.here p) = t.follow? p := by
  unfold Path.absolute
  split
  case isFalse => rfl
  case isTrue isRelative =>
    have fromRoot : (t.here.root == .relative) = false := by simpa using rooted
    simp only [follow?, fromRoot, Bool.false_eq_true, if_false] at here
    simp only [follow?, fromRoot, isRelative, Bool.false_eq_true, if_false, if_true,
      List.foldl_append, here]

/-- Dots and empty components do not matter, and a double dot leaves a directory upwards. -/
example :
    let t := Tree.ofDirectory (Path.ofArgument (.ofText "/here".toList))
      [(.ofText "a/q.rq".toList, [0x41])] []
    t.find? (Path.ofArgument (.ofText "a/./../..//here/a/q.rq/".toList)) = some (.file [0x41]) ∧
      t.find? (Path.ofArgument (.ofText "a/q.rq/..".toList)) = none := by
  decide +kernel

end Tree

end SparqlFormat
