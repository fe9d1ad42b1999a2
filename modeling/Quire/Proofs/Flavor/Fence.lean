import Mathlib.Data.List.DropRight
import Quire.Flavor.Quarto
import Quire.Proofs.Text.Cut

/-! Code in markdown, and what in it ends it. A block stands between fences of three backticks, and
inline code between runs of one or two. Main statement: `code_unbroken_iff`, exactly the codes with a
line that starts like a fence break a block, and exactly those with a run of two backticks break
inline code. -/
namespace Quire.Quarto

def linesOf (text : String) : List (List Char) := Text.splitChars (· == '\n') text.toList

/-- A line that ends a block behind its opening fence. -/
def IsFence (line : List Char) : Prop := "```".toList <+: line

instance (line : List Char) : Decidable (IsFence line) := inferInstanceAs (Decidable (_ <+: _))

def Fenceless (text : String) : Prop := ∀ line ∈ linesOf text, ¬ IsFence line

instance (text : String) : Decidable (Fenceless text) := inferInstanceAs (Decidable (∀ _ ∈ _, _))

/-- The lines between the fences of a block, which starts and ends with a line feed. -/
def inside (block : String) : List (List Char) := ((linesOf block).drop 2).dropLast.dropLast

/-- A block that its closing fence ends. -/
def Unbroken (block : String) : Prop := ∀ line ∈ inside block, ¬ IsFence line

instance (block : String) : Decidable (Unbroken block) := inferInstanceAs (Decidable (∀ _ ∈ _, _))

/-- The code of a block as it is written, without the line feeds at its end. -/
def written (body : String) : String := .ofList (Text.dropEndWhile (· == '\n') body.toList)

/-- The lines of a fenced block. Between its fences stand those of the code, and in front of them the
further lines of the word behind the opening fence. -/
theorem linesOf_fence (body word : String) :
    ∃ first, linesOf (fence body word) = [[], "```".toList ++ first] ++
      ((linesOf word).tail ++ linesOf (written body)) ++ ["```".toList, []] := by
  have chars : (fence body word).toList = [] ++ '\n' :: (("```".toList ++ word.toList) ++
      '\n' :: ((written body).toList ++ '\n' :: ("```".toList ++ '\n' :: []))) := by
    simp [fence, written]
  have plain : ∀ d ∈ "```".toList, (d == '\n') = false := by simp
  obtain ⟨first, more, split⟩ :=
    List.exists_cons_of_ne_nil (Text.splitChars_ne_nil (· == '\n') word.toList)
  have opening : Text.splitChars (· == '\n') ("```".toList ++ word.toList) =
      ("```".toList ++ first) :: (linesOf word).tail := by
    rw [Text.splitChars_append_of_apart plain split, linesOf, split, List.tail_cons]
  have closing : Text.splitChars (· == '\n') ("```".toList ++ '\n' :: []) =
      ["```".toList, []] := by decide
  refine ⟨first, ?_⟩
  rw [linesOf, chars, Text.splitChars_append_cons rfl, Text.splitChars_append_cons rfl,
    Text.splitChars_append_cons rfl, opening, closing, linesOf, linesOf]
  simp [Text.splitChars_nil]

theorem inside_fence (body word : String) :
    inside (fence body word) = (linesOf word).tail ++ linesOf (written body) := by
  obtain ⟨first, lines⟩ := linesOf_fence body word
  rw [inside, lines, List.append_assoc]
  simp

/-- The lines that go with the line feeds at the end of a code are empty. -/
theorem fenceless_written (body : String) : Fenceless (written body) ↔ Fenceless body := by
  have whole : (written body).toList ++ body.toList.rtakeWhile (· == '\n') = body.toList := by
    rw [written, String.toList_ofList]
    exact List.rdropWhile_append_rtakeWhile
  have feeds : ∀ c ∈ body.toList.rtakeWhile (· == '\n'), (c == '\n') = true :=
    fun _ member => List.mem_rtakeWhile_imp (p := (· == '\n')) member
  cases gap : body.toList.rtakeWhile (· == '\n') with
  | nil =>
    rw [gap, List.append_nil] at whole
    rw [Fenceless, Fenceless, linesOf, linesOf, whole]
  | cons c gap' =>
    rw [gap] at whole feeds
    obtain ⟨feed, feeds⟩ := List.forall_mem_cons.mp feeds
    have empty : ∀ line ∈ Text.splitChars (· == '\n') gap', ¬ IsFence line := by
      intro line member fence
      have inside : '\x60' ∈ line := fence.subset (by decide)
      exact absurd (feeds _ (Text.subset_of_mem_splitChars member inside)) (by decide)
    have lines : linesOf body =
        linesOf (written body) ++ Text.splitChars (· == '\n') gap' := by
      rw [linesOf, ← whole, Text.splitChars_append_cons (p := (· == '\n')) feed, linesOf]
    rw [Fenceless, Fenceless, lines, List.forall_mem_append]
    exact ⟨fun free => ⟨free, empty⟩, And.left⟩

theorem unbroken_fence_iff (body word : String) :
    Unbroken (fence body word) ↔
      (∀ line ∈ (linesOf word).tail, ¬ IsFence line) ∧ Fenceless body := by
  rw [Unbroken, inside_fence, List.forall_mem_append, ← fenceless_written body, Fenceless]

/-! Inline code. -/

/-- A run of backticks that no further ones lengthen. -/
def HasRun (ticks : Nat) (text : List Char) : Prop :=
  ∃ front back, text = front ++ List.replicate ticks '\x60' ++ back ∧
    front.getLast? ≠ some '\x60' ∧ back.head? ≠ some '\x60'

/-- A content between two runs of backticks, none of which belongs to the content. -/
structure CodeSpan (ticks : Nat) (content text : List Char) : Prop where
  some_ : 0 < ticks
  text_eq : text = List.replicate ticks '\x60' ++ content ++ List.replicate ticks '\x60'
  head?_ne : content.head? ≠ some '\x60'
  getLast?_ne : content.getLast? ≠ some '\x60'

variable {ticks : Nat} {code : List Char}

theorem mem_of_hasRun (some_ : 0 < ticks) (run : HasRun ticks code) : '\x60' ∈ code := by
  obtain ⟨front, back, rfl, -, -⟩ := run
  simp [Nat.ne_of_gt some_]

theorem hasRun_cons_space (some_ : 0 < ticks) : HasRun ticks (' ' :: code) ↔ HasRun ticks code := by
  constructor
  · rintro ⟨front, back, eq, before, after⟩
    cases front with
    | nil =>
      obtain ⟨n, rfl⟩ := Nat.exists_eq_add_of_lt some_
      simp [List.replicate_succ] at eq
    | cons c front =>
      obtain ⟨-, rfl⟩ := List.cons.inj eq
      refine ⟨front, back, rfl, fun last => before ?_, after⟩
      rw [List.getLast?_cons, last]
      rfl
  · rintro ⟨front, back, rfl, before, after⟩
    refine ⟨' ' :: front, back, rfl, ?_, after⟩
    cases front with
    | nil => decide
    | cons => rwa [List.getLast?_cons_cons]

theorem hasRun_reverse (run : HasRun ticks code) : HasRun ticks code.reverse := by
  obtain ⟨front, back, rfl, before, after⟩ := run
  refine ⟨back.reverse, front.reverse, by simp, ?_, ?_⟩
  · rwa [List.getLast?_reverse]
  · rwa [List.head?_reverse]

theorem hasRun_padded (some_ : 0 < ticks) :
    HasRun ticks (' ' :: code ++ [' ']) ↔ HasRun ticks code := by
  have flip (cs : List Char) : HasRun ticks cs.reverse ↔ HasRun ticks cs :=
    ⟨fun run => by simpa using hasRun_reverse run, hasRun_reverse⟩
  rw [List.cons_append, hasRun_cons_space some_, ← flip, List.reverse_append, List.reverse_singleton,
    List.singleton_append, hasRun_cons_space some_, flip]

/-- Inline code stands between runs of backticks, padded where it holds one itself. The run occurs in
the content exactly if a run of two occurs in the code. -/
theorem exists_codeSpan (code : String) :
    ∃ ticks content, CodeSpan ticks content (inlineCode code).toList ∧
      (content = code.toList ∨ content = ' ' :: code.toList ++ [' ']) ∧
      (HasRun ticks content ↔ HasRun 2 code.toList) := by
  unfold inlineCode
  split
  next =>
    refine ⟨2, ' ' :: code.toList ++ [' '], ⟨by decide, ?_, by simp, ?_⟩, .inr rfl,
      hasRun_padded (by decide)⟩
    · simp
    · rw [List.getLast?_concat]
      decide
  next tickless =>
    have absent : '\x60' ∉ code.toList := by simpa using tickless
    have runless {ticks : Nat} (some_ : 0 < ticks) : ¬ HasRun ticks code.toList :=
      fun run => absent (mem_of_hasRun some_ run)
    refine ⟨1, code.toList, ⟨by decide, ?_, ?_, ?_⟩, .inl rfl,
      iff_of_false (runless (by decide)) (runless (by decide))⟩
    · simp
    · exact fun first => absent (List.mem_of_head? first)
    · exact fun last => absent (List.mem_of_getLast? last)

/-- The word behind a fence for the language of a cell. -/
theorem linesOf_language (lang : Option Lang) :
    linesOf ((lang.map Lang.fence).getD "") = [((lang.map Lang.fence).getD "").toList] := by
  cases lang with
  | none => rfl
  | some lang => cases lang <;> decide

/-- Exactly the codes with a line that starts like a fence are ended by their own content in a block
of code or in a cell of an example, and exactly those with a run of two backticks in inline code. -/
theorem code_unbroken_iff (code : String) :
    (∀ language, Unbroken (flavor.codeBlock code language) ↔
      (∀ line ∈ (linesOf (language.getD "")).tail, ¬ IsFence line) ∧ Fenceless code) ∧
    (∀ caption lang, Unbroken (cell ⟨caption, lang, .text code⟩) ↔ Fenceless code) ∧
    (∀ caption lang, Unbroken (cell ⟨caption, lang, .html code⟩) ↔ Fenceless code) ∧
    (∀ caption lang lines, Unbroken (cell ⟨caption, lang, .code lines⟩) ↔
      Fenceless ("\n".intercalate (lines.map (·.getD "")))) ∧
    ∃ ticks content, CodeSpan ticks content (flavor.inlineCode code).toList ∧
      (content = code.toList ∨ content = ' ' :: code.toList ++ [' ']) ∧
      (HasRun ticks content ↔ HasRun 2 code.toList) := by
  have oneLine {body word : String} (single : linesOf word = [word.toList]) :
      Unbroken (fence body word) ↔ Fenceless body := by
    rw [unbroken_fence_iff, single, List.tail_cons]
    exact and_iff_right nofun
  refine ⟨fun language => unbroken_fence_iff code _, fun _ _ => oneLine rfl,
    fun _ _ => oneLine (by decide), fun _ lang _ => oneLine (linesOf_language lang),
    exists_codeSpan code⟩

/-- A code about markdown: its own fence ends the block, and its run of two backticks the inline
code. -/
theorem broken_by_content :
    let block := flavor.codeBlock "a\n```\nb" none
    let span := flavor.inlineCode "a``b"
    block = "\n```\na\n```\nb\n```\n" ∧ (∃ line ∈ inside block, IsFence line) ∧
      CodeSpan 2 " a``b ".toList span.toList ∧ HasRun 2 " a``b ".toList := by
  intro block span
  refine ⟨by decide, ⟨"```".toList, by decide, by decide⟩,
    ⟨by decide, by decide, by decide, by decide⟩, ?_⟩
  exact ⟨" a".toList, "b ".toList, by decide, by decide, by decide⟩

end Quire.Quarto
