import Quire.Proofs.Text.Cut
import Quire.Proofs.Verbs

/-! Texts whose inline verbatim spans are replaced one text after another. The spans of a text are
found from the left, each as the first one behind the span before it. Their placeholders are
numbered through all the texts, and no placeholder makes a new span with what stands around it. Main
statement: `preprocessAll_divided`. -/
namespace Quire.Verbs

/-- A text as its spans with their bodies, each behind the text that separates it from the one
before, and the text behind the last one. -/
inductive Division
  | last (tail : List Char)
  | piece (gap span body : List Char) (rest : Division)

/-- Whether the spans of a text, if there are any, start behind its first `n` characters. -/
def FreeBefore (n : Nat) (cs : List Char) : Prop :=
  ∀ front span body back, cs = front ++ (span ++ back) → IsSpan span body → n ≤ front.length

namespace Division

def text : Division → List Char
  | last tail => tail
  | piece gap span _ rest => gap ++ (span ++ rest.text)

/-- Each span is the first one of the text that is left, and none is left over. -/
def Leftmost : Division → Prop
  | last tail => Spanless tail
  | piece gap span body rest =>
    IsSpan span body ∧ FreeBefore gap.length (gap ++ (span ++ rest.text)) ∧ rest.Leftmost

def bodies : Division → List String
  | last _ => []
  | piece _ _ body rest => .ofList body :: rest.bodies

def numbered (n : Nat) : Division → List Char
  | last tail => tail
  | piece gap _ _ rest => gap ++ ((placeholder n).toList ++ rest.numbered (n + 1))

end Division

def numberedAll (n : Nat) : List Division → List String
  | [] => []
  | division :: divisions =>
    .ofList (division.numbered n) :: numberedAll (n + division.bodies.length) divisions

def preprocessAll (kept : List String) : List String → List String × List String
  | [] => ([], kept)
  | tex :: texts =>
    let (text, kept) := preprocess kept tex
    let (more, kept) := preprocessAll kept texts
    (text :: more, kept)

section Divided
variable {n : Nat} {c : Char} {cs gap span body : List Char}

/-- A span is found where it starts. -/
theorem exists_spanAt? (isSpan : IsSpan span body) (behind : List Char)
    (whole : c :: cs = span ++ behind) :
    ∃ used, spanAt? c cs = some (body, used) ∧ cs.drop ("verb".length + used) = behind := by
  obtain ⟨star, fence, -, written⟩ := id isSpan
  have length : span.length = 5 + (star ++ fence :: (body ++ [fence])).length := by
    rw [written]
    exact List.length_append
  refine ⟨_, spanAt?_eq_some_iff.mpr ⟨span, behind, isSpan, whole, length⟩, ?_⟩
  have skipped := congrArg (List.drop span.length) whole
  rw [List.drop_left, length, Nat.add_right_comm 4 1, List.drop_succ_cons] at skipped
  exact skipped

theorem not_prefix_of_spanAt? (none_ : spanAt? c cs = none) (isSpan : IsSpan span body) :
    ¬ span <+: c :: cs := by
  rintro ⟨behind, whole⟩
  obtain ⟨used, found, -⟩ := exists_spanAt? isSpan behind whole.symm
  rw [none_] at found
  cases found

theorem Spanless.cons (none_ : spanAt? c cs = none) (spanless : Spanless cs) :
    Spanless (c :: cs) := by
  intro span body isSpan inside
  obtain starts | later := List.infix_cons_iff.mp inside
  · exact not_prefix_of_spanAt? none_ isSpan starts
  · exact spanless span body isSpan later

theorem FreeBefore.cons (none_ : spanAt? c cs = none) (free : FreeBefore n cs) :
    FreeBefore (n + 1) (c :: cs) := by
  intro front span body behind whole isSpan
  cases front with
  | nil => exact absurd ⟨behind, whole.symm⟩ (not_prefix_of_spanAt? none_ isSpan)
  | cons d front =>
    exact Nat.succ_le_succ (free front span body behind (List.cons.inj whole).2 isSpan)

theorem FreeBefore.tail (free : FreeBefore (n + 1) (c :: cs)) : FreeBefore n cs :=
  fun front span body behind whole isSpan =>
    Nat.le_of_succ_le_succ (free (c :: front) span body behind (congrArg (c :: ·) whole) isSpan)

/-- Every text can be divided from the left. -/
theorem exists_division (cs : List Char) :
    ∃ division : Division, division.Leftmost ∧ division.text = cs := by
  induction size : cs.length using Nat.strong_induction_on generalizing cs with
  | _ size ih =>
    cases cs with
    | nil => exact ⟨.last [], spanless_of_isChain List.isChain_nil, rfl⟩
    | cons c cs =>
      rw [List.length_cons] at size
      cases found : spanAt? c cs with
      | some taken =>
        obtain ⟨span, behind, isSpan, whole, length⟩ := spanAt?_eq_some_iff.mp found
        have shorter : behind.length < cs.length + 1 := by
          have lengths := congrArg List.length whole
          simp only [List.length_cons, List.length_append, length] at lengths
          omega
        obtain ⟨rest, leftmost, rfl⟩ := ih _ (size ▸ shorter) behind rfl
        exact ⟨.piece [] span taken.1 rest, ⟨isSpan, fun _ _ _ _ _ _ => Nat.zero_le _, leftmost⟩,
          whole.symm⟩
      | none =>
        obtain ⟨division, leftmost, rfl⟩ := ih cs.length (by omega) cs rfl
        cases division with
        | last tail => exact ⟨.last (c :: tail), leftmost.cons found, rfl⟩
        | piece gap span body rest =>
          obtain ⟨isSpan, free, behind⟩ := leftmost
          exact ⟨.piece (c :: gap) span body rest, ⟨isSpan, free.cons found, behind⟩, rfl⟩

/-- A span gives way to a placeholder, whatever stands behind it. -/
theorem extract_span (isSpan : IsSpan span body) (n : Nat) (cs : List Char) :
    extract n (span ++ cs) =
      ((placeholder n).toList ++ (extract (n + 1) cs).1,
        .ofList body :: (extract (n + 1) cs).2) := by
  obtain ⟨c, behind, rfl⟩ : ∃ c behind, span = c :: behind := by
    obtain ⟨star, fence, -, rfl⟩ := isSpan
    exact ⟨_, _, rfl⟩
  obtain ⟨used, found, skipped⟩ := exists_spanAt? isSpan cs List.cons_append.symm
  rw [List.cons_append, extract_cons, found]
  simp only [skipped]

/-- In front of the first span a text stays as it is. -/
theorem extract_gap (free : FreeBefore gap.length (gap ++ cs)) (n : Nat) :
    extract n (gap ++ cs) = (gap ++ (extract n cs).1, (extract n cs).2) := by
  induction gap with
  | nil => rfl
  | cons c gap ih =>
    have none_ : spanAt? c (gap ++ cs) = none := by
      refine Option.eq_none_iff_forall_ne_some.mpr fun ⟨body, used⟩ found => ?_
      obtain ⟨span, more, isSpan, whole, -⟩ := spanAt?_eq_some_iff.mp found
      exact absurd (free [] span body more whole isSpan) (by simp)
    rw [List.cons_append, extract_cons, none_, ih free.tail]
    rfl

/-- The spans that are replaced are the ones that are found from the left. -/
theorem extract_text {division : Division} (leftmost : division.Leftmost) (n : Nat) :
    extract n division.text = (division.numbered n, division.bodies) := by
  induction division generalizing n with
  | last tail => exact extract_spanless leftmost n
  | piece gap span body rest ih =>
    obtain ⟨isSpan, free, behind⟩ := leftmost
    rw [Division.text, extract_gap free, extract_span isSpan, ih behind]
    rfl

end Divided

/-- A fence comes again in the same line. -/
def Closes (fence : Char) (cs : List Char) : Prop :=
  ∃ body more, fence ∉ body ∧ '\n' ∉ body ∧ cs = body ++ fence :: more

section Replaced
variable {n : Nat} {c fence : Char} {cs ds gap span body word : List Char}

theorem closes_cons_iff : Closes fence (c :: cs) ↔ c = fence ∨ c ≠ '\n' ∧ Closes fence cs := by
  constructor
  · rintro ⟨body, more, apart, line, whole⟩
    cases body with
    | nil => exact .inl (List.cons.inj whole).1
    | cons d body =>
      obtain ⟨rfl, rest⟩ := List.cons.inj whole
      obtain ⟨-, apart⟩ := List.ne_and_not_mem_of_not_mem_cons apart
      obtain ⟨feed, line⟩ := List.ne_and_not_mem_of_not_mem_cons line
      exact .inr ⟨feed.symm, body, more, apart, line, rest⟩
  · by_cases same : c = fence
    · exact fun _ => ⟨[], cs, by simp, by simp, by simp [same]⟩
    · rintro (same' | ⟨feed, body, more, apart, line, rfl⟩)
      · exact absurd same' same
      · exact ⟨c :: body, more, List.not_mem_cons_of_ne_of_not_mem (Ne.symm same) apart,
          List.not_mem_cons_of_ne_of_not_mem feed.symm line, rfl⟩

theorem Closes.of_append (plain : fence ∉ word) (closes : Closes fence (word ++ cs)) :
    Closes fence cs := by
  induction word with
  | nil => exact closes
  | cons c word ih =>
    obtain ⟨other, plain⟩ := List.ne_and_not_mem_of_not_mem_cons plain
    obtain same | ⟨-, closes⟩ := closes_cons_iff.mp closes
    · exact absurd same.symm other
    · exact ih plain closes

theorem Closes.append (line : '\n' ∉ word) (closes : Closes fence cs) :
    Closes fence (word ++ cs) := by
  induction word with
  | nil => exact closes
  | cons c word ih =>
    obtain ⟨feed, line⟩ := List.ne_and_not_mem_of_not_mem_cons line
    exact closes_cons_iff.mpr (.inr ⟨feed.symm, ih line⟩)

/-- What closes a fence behind a text may be exchanged. -/
theorem Closes.imp_append (imp : Closes fence cs → Closes fence ds) (gap : List Char)
    (closes : Closes fence (gap ++ cs)) : Closes fence (gap ++ ds) := by
  induction gap with
  | nil => exact imp closes
  | cons c gap ih =>
    exact closes_cons_iff.mpr ((closes_cons_iff.mp closes).imp_right (And.imp_right ih))

/-- A span starts where a fence behind its command is closed. -/
theorem exists_prefix_iff : (∃ span body, IsSpan span body ∧ span <+: cs) ↔
    ∃ star fence more, (star = [] ∨ star = ['*']) ∧ isFence fence = true ∧ Closes fence more ∧
      cs = "\\verb".toList ++ (star ++ fence :: more) := by
  constructor
  · rintro ⟨span, body, ⟨star, fence, ⟨starred, fenced, apart, line, -⟩, rfl⟩, more, rfl⟩
    exact ⟨star, fence, body ++ fence :: more, starred, fenced, ⟨body, more, apart, line, rfl⟩,
      by simp⟩
  · rintro ⟨star, fence, _, starred, fenced, ⟨body, more, apart, line, rfl⟩, rfl⟩
    exact ⟨_, body, ⟨star, fence, ⟨starred, fenced, apart, line, rfl⟩, rfl⟩, more, by simp⟩

theorem not_mem_placeholder (fenced : isFence fence = true) (n : Nat) :
    fence ∉ (placeholder n).toList := by
  have known : fence = '|' ∨ fence = '+' ∨ fence = '!' := by
    simpa [isFence, or_assoc] using fenced
  have digits : fence ∉ Nat.toDigits 10 n := by
    refine Text.not_mem_toDigits ?_ n
    rcases known with rfl | rfl | rfl <;> rfl
  rcases known with rfl | rfl | rfl <;>
    simp [placeholder, String.join, Nat.toString_eq_repr, digits]

/-- A placeholder starts no span. -/
theorem not_prefix_placeholder (isSpan : IsSpan span body) (n : Nat) (cs : List Char) :
    ¬ span <+: (placeholder n).toList ++ cs := by
  intro starts
  obtain ⟨star, fence, more, starred, fenced, -, whole⟩ :=
    exists_prefix_iff.mp ⟨_, _, isSpan, starts⟩
  have written : (placeholder n).toList ++ cs =
      "\\verb".toList ++
        'p' :: ("laceholder\x7b".toList ++ (Nat.toDigits 10 n ++ '\x7d' :: cs)) := by
    simp [placeholder, String.join, Nat.toString_eq_repr]
  have next := List.append_cancel_left (written.symm.trans whole)
  rcases starred with rfl | rfl
  · obtain rfl := (List.cons.inj next).1
    cases fenced
  · exact absurd (List.cons.inj next).1 (by decide)

namespace Division
variable {division : Division}

/-- Replacing spans closes no fence that is open in its line. -/
theorem closes_text (leftmost : division.Leftmost) (fenced : isFence fence = true)
    (closes : Closes fence (division.numbered n)) : Closes fence division.text := by
  induction division generalizing n with
  | last tail => exact closes
  | piece gap span body rest ih =>
    obtain ⟨isSpan, -, behind⟩ := leftmost
    refine Closes.imp_append (fun closes => ?_) gap closes
    exact (ih behind (closes.of_append (not_mem_placeholder fenced n))).append isSpan.line.1

/-- In a gap no span starts, when what stands behind the gap is replaced. -/
theorem spanAt?_numbered (leftmost : (piece (c :: gap) span body division).Leftmost) (n : Nat) :
    spanAt? c ((piece gap span body division).numbered n) = none := by
  obtain ⟨isSpan, free, behind⟩ := leftmost
  refine Option.eq_none_iff_forall_ne_some.mpr fun ⟨body', used⟩ found => ?_
  obtain ⟨span', after, isSpan', whole, -⟩ := spanAt?_eq_some_iff.mp found
  obtain ⟨star, fence, more, starred, fenced, closes, whole⟩ :=
    exists_prefix_iff.mp ⟨span', body', isSpan', after, whole.symm⟩
  obtain ⟨word, placed, -⟩ := exists_placeholder n
  have plain : '\\' ∉ "verb".toList ++ (star ++ [fence]) := by
    have other : '\\' ≠ fence := by rintro rfl; cases fenced
    rcases starred with rfl | rfl <;> simp [other]
  obtain ⟨rfl, rest⟩ : c = '\\' ∧ (piece gap span body division).numbered n =
      "verb".toList ++ (star ++ fence :: more) := by simpa using whole
  have within : ("verb".toList ++ (star ++ [fence])) ++ more =
      gap ++ '\\' :: ('v' :: word ++ division.numbered (n + 1)) := by
    rw [numbered, placed] at rest
    rw [List.append_assoc, List.append_assoc, List.singleton_append, ← rest]
    rfl
  obtain ⟨gap', rfl, rfl⟩ := Text.behind_word plain within
  have closes : Closes fence (gap' ++ (span ++ division.text)) := by
    refine Closes.imp_append (fun closes => ?_) gap' closes
    have closes : Closes fence ((placeholder n).toList ++ division.numbered (n + 1)) := by
      rwa [placed]
    exact (closes_text behind fenced (closes.of_append (not_mem_placeholder fenced n))).append
      isSpan.line.1
  obtain ⟨first, firstBody, isFirst, back, starts⟩ :=
    exists_prefix_iff.mpr ⟨star, fence, _, starred, fenced, closes, rfl⟩
  have early := free [] first firstBody back (by simpa using starts.symm) isFirst
  exact absurd early (by simp)

/-- Placeholders make no span with what stands around them. -/
theorem spanless_numbered (leftmost : division.Leftmost) (n : Nat) :
    Spanless (division.numbered n) := by
  induction division generalizing n with
  | last tail => exact leftmost
  | piece gap span body rest ih =>
    induction gap with
    | nil =>
      obtain ⟨-, -, behind⟩ := leftmost
      obtain ⟨word, placed, solid⟩ := exists_placeholder n
      intro span' body' isSpan inside
      have starts := not_prefix_placeholder isSpan n (rest.numbered (n + 1))
      obtain ⟨star, fence, -, rfl⟩ := id isSpan
      rw [numbered, List.nil_append] at inside
      rw [placed] at inside starts
      have later := (List.infix_cons_iff.mp inside).resolve_left starts
      have solid' : '\\' ∉ 'v' :: word := by simp [solid]
      exact ih behind (n + 1) _ _ isSpan (infix_of_append solid' later)
    | cons c gap ih' =>
      have first := spanAt?_numbered leftmost n
      obtain ⟨isSpan, free, behind⟩ := leftmost
      exact Spanless.cons first (ih' ⟨isSpan, free.tail, behind⟩)

end Division
end Replaced

section Texts
variable {texts : List String} {divisions : List Division}

theorem preprocess_text {division : Division} (leftmost : division.Leftmost) (kept : List String) :
    preprocess kept (.ofList division.text) =
      (.ofList (division.numbered kept.length), kept ++ division.bodies) := by
  simp only [preprocess, String.toList_ofList, extract_text leftmost]

/-- A text whose spans were replaced has none. -/
theorem preprocess_again (kept again : List String) (tex : String) :
    preprocess again (preprocess kept tex).1 = ((preprocess kept tex).1, again) := by
  obtain ⟨division, leftmost, same⟩ := exists_division tex.toList
  obtain rfl : tex = .ofList division.text := by rw [same, String.ofList_toList]
  rw [preprocess_text leftmost]
  simp only [preprocess, String.toList_ofList,
    extract_spanless (division.spanless_numbered leftmost _), List.append_nil]

theorem preprocessAll_numbered (leftmost : ∀ division ∈ divisions, division.Leftmost)
    (kept : List String) : preprocessAll kept (divisions.map (.ofList ·.text)) =
      (numberedAll kept.length divisions, kept ++ divisions.flatMap (·.bodies)) := by
  induction divisions generalizing kept with
  | nil => simp [preprocessAll, numberedAll]
  | cons division divisions ih =>
    obtain ⟨first, leftmost⟩ := List.forall_mem_cons.mp leftmost
    rw [List.map_cons, preprocessAll, preprocess_text first]
    simp only [ih leftmost, List.length_append, numberedAll, List.flatMap_cons, List.append_assoc]

theorem preprocessAll_append (kept : List String) (front back : List String) :
    (preprocessAll kept (front ++ back)).2 =
      (preprocessAll (preprocessAll kept front).2 back).2 := by
  induction front generalizing kept with
  | nil => rfl
  | cons tex front ih => exact ih (preprocess kept tex).2

/-- Bodies that were kept once stay as they are. -/
theorem prefix_preprocessAll (kept : List String) (texts : List String) :
    kept <+: (preprocessAll kept texts).2 := by
  induction texts generalizing kept with
  | nil => exact List.prefix_rfl
  | cons tex texts ih =>
    have first : kept <+: (preprocess kept tex).2 := List.prefix_append _ _
    exact first.trans (ih (preprocess kept tex).2)

theorem again_preprocessAll (kept : List String) : ∀ out ∈ (preprocessAll kept texts).1,
    ∀ again, preprocess again out = (out, again) := by
  induction texts generalizing kept with
  | nil => simp [preprocessAll]
  | cons tex texts ih =>
    refine List.forall_mem_cons.mpr ⟨fun again => preprocess_again kept again tex, ?_⟩
    exact ih (preprocess kept tex).2

/-- Whatever texts are read one after another: each is divided at its spans from the left, its spans
give way to placeholders, which are numbered from 0 through all the texts, and the bodies that are
kept are those of the spans, in their order. Bodies that were kept once stay as they are, and a text
that was written is read again without a change. -/
theorem preprocessAll_divided (texts : List String) :
    (∃ divisions : List Division, (∀ division ∈ divisions, division.Leftmost) ∧
      divisions.map (.ofList ·.text) = texts) ∧
    (∀ divisions : List Division, (∀ division ∈ divisions, division.Leftmost) →
      divisions.map (.ofList ·.text) = texts → preprocessAll [] texts =
        (numberedAll 0 divisions, divisions.flatMap (·.bodies))) ∧
    (∀ n, (preprocessAll [] (texts.take n)).2 <+: (preprocessAll [] texts).2) ∧
    ∀ out ∈ (preprocessAll [] texts).1, ∀ kept, preprocess kept out = (out, kept) := by
  refine ⟨?_, ?_, fun n => ?_, again_preprocessAll []⟩
  · choose divide leftmost divided using exists_division
    refine ⟨texts.map (divide ·.toList), ?_, ?_⟩
    · rw [List.forall_mem_map]
      exact fun tex _ => leftmost tex.toList
    · simp [Function.comp_def, divided]
  · rintro divisions leftmost rfl
    exact preprocessAll_numbered leftmost []
  · have whole := preprocessAll_append [] (texts.take n) (texts.drop n)
    rw [List.take_append_drop] at whole
    rw [whole]
    exact prefix_preprocessAll _ _

theorem preprocessAll_divided_of_two :
    ∃ divisions : List Division, (∀ division ∈ divisions, division.Leftmost) ∧
      divisions.map (.ofList ·.text) = ["\\verb|x <- 1| \\verb*+a|b+\\verb|", "\\verb!z!"] ∧
      numberedAll 0 divisions =
        ["\\verbplaceholder\x7b0\x7d \\verbplaceholder\x7b1\x7d\\verb|",
          "\\verbplaceholder\x7b2\x7d"] ∧
      divisions.flatMap (·.bodies) = ["x <- 1", "a|b", "z"] := by
  obtain ⟨⟨divisions, leftmost, divided⟩, numbered, -⟩ :=
    preprocessAll_divided ["\\verb|x <- 1| \\verb*+a|b+\\verb|", "\\verb!z!"]
  have run : preprocessAll [] ["\\verb|x <- 1| \\verb*+a|b+\\verb|", "\\verb!z!"] =
      (["\\verbplaceholder\x7b0\x7d \\verbplaceholder\x7b1\x7d\\verb|",
        "\\verbplaceholder\x7b2\x7d"], ["x <- 1", "a|b", "z"]) := by decide +kernel
  obtain ⟨texts, bodies⟩ := Prod.mk.inj ((numbered divisions leftmost divided).symm.trans run)
  exact ⟨divisions, leftmost, divided, texts, bodies⟩

end Texts
end Quire.Verbs
