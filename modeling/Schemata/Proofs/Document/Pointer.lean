import Schemata.Proofs.Document.Node
import Schemata.Proofs.Text.Split
import Schemata.Schema.Reference

namespace Schemata

/-! What a JSON pointer designates in a document (RFC 6901). Like a location, a pointer is
the text after a number sign. -/

namespace Pointer

/-- Undoes the escapes of a segment, in which a tilde stands for nothing else. -/
def unescape? : List Char → Option (List Char)
  | [] => some []
  | '~' :: '0' :: rest => (unescape? rest).map ('~' :: ·)
  | '~' :: '1' :: rest => (unescape? rest).map ('/' :: ·)
  | '~' :: _ => none
  | char :: rest => (unescape? rest).map (char :: ·)

theorem unescape?_cons {char : Char} (plain : char ≠ '~') (rest : List Char) :
    unescape? (char :: rest) = (unescape? rest).map (char :: ·) := by
  rw [unescape?]
  all_goals simp [plain]

/-- Each segment follows a slash. -/
def segments? : List Char → Option (List String)
  | '#' :: text =>
      match Text.splitWhere (· = '/') text with
      | [] :: pieces => pieces.mapM fun piece => (unescape? piece).map String.ofList
      | _ => none
  | _ => none

theorem splitWhere_slashes {pieces : List (List Char)}
    (free : ∀ piece ∈ pieces, '/' ∉ piece) :
    Text.splitWhere (· = '/') (pieces.flatMap ('/' :: ·)) = [] :: pieces := by
  induction pieces with
  | nil => rfl
  | cons piece rest induction =>
      obtain ⟨here, later⟩ := List.forall_mem_cons.mp free
      have plain : ∀ char ∈ piece, decide (char = '/') = false := by
        intro char member
        refine decide_eq_false ?_
        rintro rfl
        exact here member
      have tail := Text.splitWhere_append plain (induction later)
      rw [List.append_nil] at tail
      rw [List.flatMap_cons, List.cons_append, Text.splitWhere, tail]
      rfl

theorem segments?_slashes {pieces : List (List Char)}
    (free : ∀ piece ∈ pieces, '/' ∉ piece) :
    segments? ('#' :: pieces.flatMap ('/' :: ·)) =
      pieces.mapM fun piece => (unescape? piece).map String.ofList := by
  rw [segments?, splitWhere_slashes free]

theorem slash_not_mem_escape (segment : List Char) : '/' ∉ Location.escape segment := by
  intro member
  obtain ⟨char, _, written⟩ := List.mem_flatMap.mp member
  split at written
  · simp at written
  · simp at written
  · next other =>
    exact other (List.mem_singleton.mp written).symm

theorem unescape?_escape (segment : List Char) :
    unescape? (Location.escape segment) = some segment := by
  induction segment with
  | nil => rfl
  | cons char rest induction =>
      rw [Location.escape] at induction
      rw [Location.escape, List.flatMap_cons]
      split
      · exact congrArg (Option.map _) induction
      · exact congrArg (Option.map _) induction
      · next plain _ =>
        rw [List.singleton_append, unescape?_cons plain, induction, Option.map_some]

theorem pointer_eq_slashes (location : Location) :
    location.pointer =
      '#' :: (location.segments.map (Location.escape ·.toList)).flatMap ('/' :: ·) := by
  rw [Location.pointer, List.flatMap_map]

theorem mapM_unescape?_escape (segments : List String) :
    (segments.map (Location.escape ·.toList)).mapM
      (fun piece => (unescape? piece).map String.ofList) = some segments := by
  induction segments with
  | nil => rfl
  | cons segment rest induction =>
      rw [List.map_cons, List.mapM_cons, unescape?_escape, induction]
      simp

theorem slash_not_mem_pieces (segments : List String) :
    ∀ piece ∈ segments.map (Location.escape ·.toList), '/' ∉ piece := by
  intro piece member
  obtain ⟨segment, _, rfl⟩ := List.mem_map.mp member
  exact slash_not_mem_escape _

/-- The pointer of a location is read as that location. -/
theorem segments?_pointer (location : Location) :
    segments? location.pointer = some location.segments := by
  rw [pointer_eq_slashes, segments?_slashes (slash_not_mem_pieces _),
    mapM_unescape?_escape]

theorem segments?_child (location : Location) {segment : List Char}
    (free : '/' ∉ segment) :
    segments? (location.pointer ++ '/' :: segment) =
      (unescape? segment).map fun name => location.segments ++ [String.ofList name] := by
  have slashes : location.pointer ++ '/' :: segment =
      '#' :: (location.segments.map (Location.escape ·.toList) ++ [segment]).flatMap
        ('/' :: ·) := by
    rw [pointer_eq_slashes, List.cons_append, List.flatMap_append,
      List.flatMap_singleton]
  rw [slashes, segments?_slashes, List.mapM_append, mapM_unescape?_escape]
  · cases read : unescape? segment <;> simp [read]
  · refine List.forall_mem_append.mpr ⟨slash_not_mem_pieces _, ?_⟩
    exact List.forall_mem_singleton.mpr free

/-- A segment that is read strictly is read in the same way leniently. -/
theorem unescape_of_unescape? {segment name : List Char}
    (read : unescape? segment = some name) : Reference.unescape segment = name := by
  induction segment using unescape?.induct generalizing name with
  | case1 =>
      cases read
      rfl
  | case2 rest induction | case3 rest induction =>
      obtain ⟨tail, later, rfl⟩ := Option.map_eq_some_iff.mp read
      rw [Reference.unescape, induction later]
  | case4 rest tilde slash =>
      rw [unescape?.eq_4 rest tilde slash] at read
      cases read
  | case5 char rest tilde slash plain induction =>
      rw [unescape?_cons plain] at read
      obtain ⟨tail, later, rfl⟩ := Option.map_eq_some_iff.mp read
      rw [Reference.unescape, induction later]
      · exact tilde
      · exact slash

end Pointer

namespace Node

/-- What stands in a mapping under a key, or in a sequence at an index. -/
def child? : Node → String → Option Node
  | .mapping _ entries, segment => entries.lookup segment
  | .sequence _ items, segment =>
      items.zipIdx.findSome? fun (item, index) =>
        if naturalText index = segment.toList then some item else none
  | .scalar .., _ => none

def at? (node : Node) (segments : List String) : Option Node :=
  segments.foldlM child? node

/-- The node that a pointer designates, evaluated from this one. -/
def designated? (node : Node) (pointer : String) : Option Node :=
  (Pointer.segments? pointer.toList).bind node.at?

theorem at?_append (node : Node) (segments others : List String) :
    node.at? (segments ++ others) = (node.at? segments).bind (·.at? others) :=
  List.foldlM_append

theorem child?_of_get? {node held : Node} {key : String}
    (found : node.get? key = some held) : node.child? key = some held := by
  cases node with
  | scalar | sequence => cases found
  | mapping _ entries => exact found

theorem at?_of_below? {node held : Node} {keys : List String}
    (found : node.below? keys = some held) : node.at? keys = some held := by
  induction keys generalizing node with
  | nil => exact found
  | cons key rest induction =>
      obtain ⟨middle, here, later⟩ := Option.bind_eq_some_iff.mp found
      rw [at?, List.foldlM_cons, child?_of_get? here]
      exact induction later

end Node

end Schemata
