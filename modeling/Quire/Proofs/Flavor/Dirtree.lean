import Quire.Flavor.Html
import Quire.Proofs.Text.Cut

/-! The listing of folders as a reader of its tags sees it: lists that open and close around entries.
Main statement: `outline_dirtree`, the reader finds the entries in their order, each inside as many
lists as its depth says. -/
namespace Quire

namespace Text

theorem toList_repeated (s : String) (n : Nat) :
    (repeated s n).toList = (List.replicate n s.toList).flatten := by
  induction n with
  | zero => rfl
  | succ n ih =>
    rw [repeated, List.replicate_succ, String.join_cons, String.toList_append,
      List.replicate_succ, List.flatten_cons]
    exact congrArg _ ih

end Text

namespace Html

/-- True where a tag starts. A bracket that something else follows is text. -/
def startsTag : List Char → Bool
  | '<' :: c :: _ => c.isAlpha || c == '/' || c == '!' || c == '?'
  | _ => false

def tagless : List Char → Bool
  | [] => true
  | c :: cs => !startsTag (c :: cs) && tagless cs

def splitTags : List Char → List (List Char)
  | [] => [[]]
  | c :: cs =>
    if startsTag (c :: cs) then [] :: splitTags cs
    else match splitTags cs with
      | [] => [[c]]
      | part :: parts => (c :: part) :: parts

structure Tag where
  inside : List Char
  behind : List Char
deriving DecidableEq

namespace Tag

def chars (tag : Tag) : List Char := '<' :: (tag.inside ++ '>' :: tag.behind)

structure Whole (tag : Tag) : Prop where
  starts : startsTag tag.chars = true
  unclosed : '>' ∉ tag.inside
  free : tagless (tag.inside ++ '>' :: tag.behind) = true

end Tag

def tags? (text : String) : Option (List Tag) :=
  match splitTags text.toList with
  | [] :: parts =>
    parts.mapM fun part =>
      (Text.splitOnce? ['>'] part).map fun (inside, behind) => ⟨inside, behind⟩
  | _ => none

/-- Two characters tell whether a tag starts. -/
theorem startsTag_cons (c d : Char) (cs : List Char) :
    startsTag (c :: d :: cs) = startsTag [c, d] := by
  by_cases bracket : c = '<'
  · subst bracket
    rfl
  · simp [startsTag, bracket]

theorem startsTag_bracket (c : Char) (cs : List Char) : startsTag (c :: '<' :: cs) = false := by
  rw [startsTag_cons]
  by_cases bracket : c = '<'
  · subst bracket
    rfl
  · simp [startsTag, bracket]

/-- What stands in front of a bracket starts no tag that it does not start alone. -/
theorem splitTags_append {front cs part : List Char} {parts : List (List Char)}
    (free : tagless front = true) (bracket : cs.head? = none ∨ cs.head? = some '<')
    (split : splitTags cs = part :: parts) : splitTags (front ++ cs) = (front ++ part) :: parts := by
  induction front with
  | nil => exact split
  | cons c front ih =>
    simp only [tagless, Bool.and_eq_true, Bool.not_eq_true'] at free
    have starts : startsTag (c :: (front ++ cs)) = false := by
      cases front with
      | nil =>
        cases cs with
        | nil => exact free.1
        | cons d cs =>
          obtain rfl : d = '<' := by simpa using bracket
          exact startsTag_bracket c cs
      | cons d front =>
        rw [List.cons_append, startsTag_cons, ← startsTag_cons c d front]
        exact free.1
    rw [List.cons_append, splitTags, if_neg (Bool.eq_false_iff.mp starts), ih free.2]
    rfl

theorem splitTags_chars {tags : List Tag} (whole : ∀ tag ∈ tags, tag.Whole) :
    splitTags (tags.flatMap Tag.chars) =
      [] :: tags.map fun tag => tag.inside ++ '>' :: tag.behind := by
  induction tags with
  | nil => rfl
  | cons tag tags ih =>
    obtain ⟨first, whole⟩ := List.forall_mem_cons.mp whole
    have bracket : (tags.flatMap Tag.chars).head? = none ∨
        (tags.flatMap Tag.chars).head? = some '<' := by
      cases tags with
      | nil => exact .inl rfl
      | cons => exact .inr rfl
    have chars : (tag :: tags).flatMap Tag.chars =
        '<' :: ((tag.inside ++ '>' :: tag.behind) ++ tags.flatMap Tag.chars) := by
      simp [Tag.chars]
    have starts : startsTag ('<' :: ((tag.inside ++ '>' :: tag.behind) ++
        tags.flatMap Tag.chars)) = true := by
      have alone := first.starts
      rw [Tag.chars] at alone
      cases inside : tag.inside with
      | nil => rwa [inside, List.nil_append, startsTag_cons] at alone
      | cons c more => rwa [inside, List.cons_append, startsTag_cons] at alone
    rw [chars, splitTags, if_pos starts, splitTags_append first.free bracket (ih whole),
      List.append_nil, List.map_cons]

theorem tags?_of_whole {text : String} {tags : List Tag} (whole : ∀ tag ∈ tags, tag.Whole)
    (text_eq : text.toList = tags.flatMap Tag.chars) : tags? text = some tags := by
  have read : (tags.map fun tag => tag.inside ++ '>' :: tag.behind).mapM
      (fun part => (Text.splitOnce? ['>'] part).map fun (inside, behind) => Tag.mk inside behind) =
        some tags := by
    clear text_eq
    induction tags with
    | nil => rfl
    | cons tag tags ih =>
      obtain ⟨first, whole⟩ := List.forall_mem_cons.mp whole
      rw [List.map_cons, List.mapM_cons, ih whole, Text.splitOnce?_singleton first.unclosed]
      rfl
  rw [tags?, text_eq, splitTags_chars whole]
  exact read

/-- A reader of nested lists behind one of their tags. -/
structure Listing where
  /-- How many lists are open. -/
  opened : Nat
  /-- The text of the entry that is open. -/
  entry : Option (List Char)
  /-- The entries that are complete, each with the number of lists around it. -/
  entries : List (Nat × String)

namespace Listing

def start : Listing := ⟨0, none, []⟩

/-- An entry holds text alone. A list that closes has to be open, and nothing but white space stands
outside of the entries. -/
def step (l : Listing) (tag : Tag) : Option Listing :=
  match l.entry with
  | some text =>
    if tag.inside = "/li".toList ∧ tag.behind.all Text.isBlank then
      some { l with entry := none, entries := l.entries ++ [(l.opened, .ofList text)] }
    else none
  | none =>
    if tag.inside = "li".toList then some { l with entry := some tag.behind }
    else if !tag.behind.all Text.isBlank then none
    else if tag.inside = "/ul".toList then
      if l.opened = 0 then none else some { l with opened := l.opened - 1 }
    else if tag.inside.takeWhile (· != ' ') = "ul".toList then
      some { l with opened := l.opened + 1 }
    else none

end Listing

/-- The entries of a text of nested lists, each with the number of lists that are open around it. At
the end of the text no list is open. -/
def outline? (text : String) : Option (List (Nat × String)) := do
  let tags ← tags? text
  let l ← tags.foldlM Listing.step .start
  if l.opened = 0 ∧ l.entry = none then some l.entries else none

/-! The tags of a listing. -/

def dirtreeOpen : Tag := ⟨"ul class='dirtree'".toList, ['\n']⟩

def dirtreeClose : Tag := ⟨"/ul".toList, ['\n']⟩

def dirtreeEntry (name : String) : List Tag := [⟨"li".toList, name.toList⟩, ⟨"/li".toList, ['\n']⟩]

def dirtreeTags (depth : Nat) : List (Nat × String) → List Tag
  | [] => List.replicate depth dirtreeClose
  | (level, name) :: rest =>
    List.replicate (level - depth) dirtreeOpen ++ List.replicate (depth - level) dirtreeClose ++
      dirtreeEntry name ++ dirtreeTags level rest

theorem toList_dirtreeAt (depth : Nat) (entries : List (Nat × String)) :
    (dirtreeAt depth entries).toList = (dirtreeTags depth entries).flatMap Tag.chars := by
  have copies (tag : Tag) (n : Nat) :
      (List.replicate n tag).flatMap Tag.chars = (List.replicate n tag.chars).flatten := by
    rw [List.flatMap_def, List.map_replicate]
  have opening : "<ul class='dirtree'>\n".toList = dirtreeOpen.chars := rfl
  have closing : "</ul>\n".toList = dirtreeClose.chars := rfl
  induction entries generalizing depth with
  | nil =>
    rw [dirtreeAt, dirtreeTags, Text.toList_repeated, copies, closing]
  | cons entry rest ih =>
    obtain ⟨level, name⟩ := entry
    simp only [dirtreeAt, dirtreeTags, String.toList_append, List.flatMap_append, copies, ih,
      Text.toList_repeated, opening, closing]
    simp [dirtreeEntry, Tag.chars]

theorem whole_of_mem_dirtreeTags {depth : Nat} {entries : List (Nat × String)} {tag : Tag}
    (free : ∀ entry ∈ entries, tagless entry.2.toList = true)
    (member : tag ∈ dirtreeTags depth entries) : tag.Whole := by
  have opening : dirtreeOpen.Whole := ⟨by decide, by decide, by decide⟩
  have closing : dirtreeClose.Whole := ⟨by decide, by decide, by decide⟩
  have entryTag {text : List Char} (free : tagless text = true) :
      (Tag.mk "li".toList text).Whole := ⟨rfl, (by decide : '>' ∉ "li".toList), free⟩
  have entryEnd : (Tag.mk "/li".toList ['\n']).Whole := ⟨by decide, by decide, by decide⟩
  induction entries generalizing depth with
  | nil => exact List.eq_of_mem_replicate member ▸ closing
  | cons entry rest ih =>
    obtain ⟨level, name⟩ := entry
    obtain ⟨named, free⟩ := List.forall_mem_cons.mp free
    simp only [dirtreeTags, List.mem_append, dirtreeEntry, List.mem_cons, List.not_mem_nil,
      or_false] at member
    rcases member with ((opens | closes) | rfl | rfl) | later
    · exact List.eq_of_mem_replicate opens ▸ opening
    · exact List.eq_of_mem_replicate closes ▸ closing
    · exact entryTag named
    · exact entryEnd
    · exact ih free later

namespace Listing

variable (entries : List (Nat × String))

theorem foldlM_open (n opened : Nat) :
    (List.replicate n dirtreeOpen).foldlM step ⟨opened, none, entries⟩ =
      some ⟨opened + n, none, entries⟩ := by
  induction n generalizing opened with
  | zero => rfl
  | succ n ih =>
    have stepped : step ⟨opened, none, entries⟩ dirtreeOpen = some ⟨opened + 1, none, entries⟩ :=
      rfl
    rw [List.replicate_succ, List.foldlM_cons, stepped, Option.bind_eq_bind, Option.bind_some, ih,
      Nat.add_right_comm, Nat.add_assoc]

theorem foldlM_close (n opened : Nat) :
    (List.replicate n dirtreeClose).foldlM step ⟨opened + n, none, entries⟩ =
      some ⟨opened, none, entries⟩ := by
  induction n with
  | zero => rfl
  | succ n ih =>
    have stepped : step ⟨opened + (n + 1), none, entries⟩ dirtreeClose =
        some ⟨opened + n, none, entries⟩ := rfl
    rw [List.replicate_succ, List.foldlM_cons, stepped, Option.bind_eq_bind, Option.bind_some, ih]

theorem foldlM_entry (name : String) (opened : Nat) :
    (dirtreeEntry name).foldlM step ⟨opened, none, entries⟩ =
      some ⟨opened, none, entries ++ [(opened, name)]⟩ := by
  have named : step ⟨opened, none, entries⟩ ⟨"li".toList, name.toList⟩ =
      some ⟨opened, some name.toList, entries⟩ := rfl
  have ended : step ⟨opened, some name.toList, entries⟩ ⟨"/li".toList, ['\n']⟩ =
      some ⟨opened, none, entries ++ [(opened, .ofList name.toList)]⟩ := rfl
  rw [dirtreeEntry, List.foldlM_cons, named, Option.bind_eq_bind, Option.bind_some,
    List.foldlM_cons, ended, String.ofList_toList]
  rfl

/-- Behind the tags in front of an entry as many lists are open as it is deep. -/
theorem foldlM_level (depth level : Nat) :
    (List.replicate (level - depth) dirtreeOpen ++
      List.replicate (depth - level) dirtreeClose).foldlM step ⟨depth, none, entries⟩ =
        some ⟨level, none, entries⟩ := by
  have both : depth + (level - depth) = level + (depth - level) := by omega
  rw [List.foldlM_append, foldlM_open, Option.bind_eq_bind, Option.bind_some, both, foldlM_close]

theorem foldlM_dirtree (depth : Nat) (before entries : List (Nat × String)) :
    (dirtreeTags depth entries).foldlM step ⟨depth, none, before⟩ =
      some ⟨0, none, before ++ entries⟩ := by
  -- Behind an entry the lists of its own depth are open, whatever the jump to it was.
  induction entries generalizing depth before with
  | nil => simpa [dirtreeTags] using foldlM_close before depth 0
  | cons entry rest ih =>
    obtain ⟨level, name⟩ := entry
    rw [dirtreeTags, List.foldlM_append, List.foldlM_append, foldlM_level, Option.bind_eq_bind,
      Option.bind_some, foldlM_entry, Option.bind_some, ih, List.append_assoc,
      List.singleton_append]

end Listing

/-- The lists of a listing open and close in pairs around its entries. Each entry stands once, in its
place, with as many lists open as its depth says, and at the end no list is open. -/
theorem outline_dirtree {entries : List (Nat × String)}
    (free : ∀ entry ∈ entries, tagless entry.2.toList = true) :
    outline? (flavor.dirtree entries) = some entries := by
  have read : tags? (dirtreeAt 0 entries) = some (dirtreeTags 0 entries) :=
    tags?_of_whole (fun _ member => whole_of_mem_dirtreeTags free member)
      (toList_dirtreeAt 0 entries)
  change outline? (dirtreeAt 0 entries) = _
  rw [outline?, read, Option.bind_eq_bind, Option.bind_some, Listing.start,
    Listing.foldlM_dirtree]
  rfl

/-- Jumps of several levels, up, down and to no list at all. -/
theorem outline_dirtree_of_jumps :
    let entries := [(3, "book"), (1, "a < b & c"), (0, ""), (2, "index.tex"), (2, "main.aux<")]
    (∀ entry ∈ entries, tagless entry.2.toList = true) ∧
      outline? (flavor.dirtree entries) = some entries := by
  intro entries
  have free : ∀ entry ∈ entries, tagless entry.2.toList = true := by decide
  exact ⟨free, outline_dirtree free⟩

end Html
end Quire
