/-! Running numbers of headings. A heading raises the counter of its level and clears those below
it; its number shows the counters down to its level. -/
namespace Quire

inductive Level
  | chapter
  | section_
  | subsection
  | subsubsection
deriving DecidableEq, Repr

namespace Level

def ofCommand? : String → Option Level
  | "chapter" => some chapter
  | "section" => some section_
  | "subsection" => some subsection
  | "subsubsection" => some subsubsection
  | _ => none

def rank : Level → Nat
  | chapter => 1
  | section_ => 2
  | subsection => 3
  | subsubsection => 4

end Level

structure Counters where
  chapter : Nat
  section_ : Nat
  subsection : Nat
  subsubsection : Nat
deriving DecidableEq, Repr

namespace Counters

def forChapter (chapter : Nat) : Counters := ⟨chapter - 1, 0, 0, 0⟩

def upTo (c : Counters) : Level → List Nat
  | .chapter => [c.chapter]
  | .section_ => [c.chapter, c.section_]
  | .subsection => [c.chapter, c.section_, c.subsection]
  | .subsubsection => [c.chapter, c.section_, c.subsection, c.subsubsection]

def dotted (numbers : List Nat) : String := ".".intercalate (numbers.map toString)

def current (c : Counters) (level : Level) : String := dotted (c.upTo level)

def bump (c : Counters) : Level → Counters
  | .chapter => ⟨c.chapter + 1, 0, 0, 0⟩
  | .section_ => ⟨c.chapter, c.section_ + 1, 0, 0⟩
  | .subsection => ⟨c.chapter, c.section_, c.subsection + 1, 0⟩
  | .subsubsection => ⟨c.chapter, c.section_, c.subsection, c.subsubsection + 1⟩

end Counters
end Quire
