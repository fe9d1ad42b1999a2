import Mathlib.Data.List.Basic
import Quire.Proofs.Walk.Marker
import Quire.Walk.Table
import Quire.Walk.Text

/-! An account of the notes of a walk: each marker stands in the text that is written, in a note, or
in a text that a step has in hand and writes later. It is kept for every number of notes that may
come before the walk, so that the markers are all that changes with this number. The rules here say
what single steps do to the account. -/
namespace Quire.Walk

/-- The state without all that may change with the number of notes before the walk. -/
def State.unnumbered (s : State) : State :=
  { s with out := "", footnotes := [], marks := [], footnoteBase := 0, strays := [] }

def Settled (s : Numbered State) : Prop := ∀ n, (s n).unnumbered = (s 0).unnumbered

def trimmed (body : Numbered String) : Numbered String := fun n => Text.trim (body n)

/-- The texts are made up of the markers of these notes, in any order, and of what stands around
them. -/
def Shown (t : Target) (texts : List (Numbered String)) (numbers : List Nat) : Prop :=
  ∃ shown, ShowsAll t shown texts ∧ shown.Perm numbers

/-- The account of a walk that made the notes `made` after the notes `earlier` of the walks around
it. The markers are numbered on from those before, the notes are trimmed, and the markers that this
walk made stand somewhere. -/
structure Account (ctx : Context) (earlier made texts : List (Numbered String))
    (s : Numbered State) : Prop where
  settled : Settled s
  base_eq : ∀ n, (s n).footnoteBase = n + earlier.length
  marks_eq : ∀ n, (s n).marks = (earlier ++ made).mapIdx fun i body => ⟨n + (i + 1), body n⟩
  notes_eq : ∀ n, (s n).footnotes = made.map fun body => trimmed body n
  shown : Shown ctx.target (texts ++ (fun n => (s n).out) :: made.map trimmed)
    (List.range' (earlier.length + 1) made.length)

/-- What a step does to a state when it makes no note: it may write more text. -/
structure Extends (t : Target) (s u : Numbered State) : Prop where
  settled : Settled s → Settled u
  base_eq : ∀ n, (u n).footnoteBase = (s n).footnoteBase
  notes_eq : ∀ n, (u n).footnotes = (s n).footnotes
  marks_eq : ∀ n, (u n).marks = (s n).marks
  shows_ : Settled s → ∀ a, Shows t a (fun n => (s n).out) → Shows t a fun n => (u n).out

/-- What a step may answer. The texts in its answer may change with the number of notes before. -/
class Tells (γ : Type) (α : outParam Type) where
  answer : γ → Numbered α
  texts : γ → List (Numbered String)

structure Fixed (α : Type) where
  value : α

instance (α : Type) : Tells (Fixed α) α := ⟨fun fixed _ => fixed.value, fun _ => []⟩

instance : Tells (Numbered String) String := ⟨id, fun text => [text]⟩

instance : Tells (Option (Numbered String)) (Option String) :=
  ⟨fun text n => text.map (· n), Option.toList⟩

instance : Tells Example.Tile Example.Cell := ⟨Example.Tile.cell, fun tile => tile.caption.toList⟩

/-- The step has the first texts in hand before it and those that it answers behind it. When it
answers, it answers for every number of notes before, and the account stays right, whatever else is
in hand. -/
def Carries (γ : Type) {α : Type} [Tells γ α] (ctx : Context) (texts : List (Numbered String))
    (step : Numbered (Walk α)) : Prop :=
  ∀ earlier made more s n a u, Account ctx earlier made (texts ++ more) s →
    step n (s n) = (.ok a, u) → ∃ (g : γ) (u : Numbered State) (made' : List (Numbered String)),
      (∀ n, step n (s n) = (.ok (Tells.answer g n), u n)) ∧
        Account ctx earlier made' (Tells.texts g ++ more) u

def Steady (ctx : Context) {α : Type} (step : Walk α) : Prop :=
  Carries (Fixed α) ctx [] fun _ => step

namespace Shown

variable {t : Target} {a b texts more : List (Numbered String)} {numbers others : List Nat}

theorem perm (shown : Shown t a numbers) (same : a.Perm b) : Shown t b numbers := by
  obtain ⟨shown_, each, eq⟩ := shown
  obtain ⟨shown_', each, eq'⟩ := each.perm same
  exact ⟨shown_', each, eq'.trans eq⟩

/-- The texts in front may become others that show the same. -/
theorem exchange (same : ∀ c, ShowsAll t c a → ShowsAll t c b)
    (shown : Shown t (a ++ more) numbers) : Shown t (b ++ more) numbers := by
  obtain ⟨shown_, each, eq⟩ := shown
  obtain ⟨c, d, rfl, front, back⟩ := each.of_append
  exact ⟨c ++ d, (same c front).append back, eq⟩

theorem append (shown : Shown t a numbers) (other : Shown t b others) :
    Shown t (a ++ b) (numbers ++ others) := by
  obtain ⟨shown_, each, eq⟩ := shown
  obtain ⟨shown_', each', eq'⟩ := other
  exact ⟨shown_ ++ shown_', each.append each', eq.append eq'⟩

theorem marker (number : Nat) :
    Shown t [fun n => t.flavor.footnoteMarker (n + number)] [number] := by
  have shows_ : Shows t [number] fun n => t.flavor.footnoteMarker (n + number) :=
    (Shows.marker "" number (.plain "")).congr fun n => by simp
  exact ⟨_, .single shows_, .refl _⟩

theorem replace {s u : Numbered String} (same : ∀ c, Shows t c s → Shows t c u)
    (shown : Shown t (s :: more) numbers) : Shown t (u :: more) numbers := by
  have one (c : List Nat) (shows_ : ShowsAll t c [s]) : ShowsAll t c [u] :=
    .single (same c shows_.of_single)
  exact exchange one shown

/-- Two texts show together what they show apart. -/
theorem join {s u : Numbered String} (shown : Shown t (s :: u :: more) numbers) :
    Shown t ((fun n => s n ++ u n) :: more) numbers := by
  have both (c : List Nat) (shows_ : ShowsAll t c ([s] ++ [u])) :
      ShowsAll t c [fun n => s n ++ u n] := by
    obtain ⟨d, e, rfl, first, second⟩ := shows_.of_append
    exact .single (first.of_single.append second.of_single)
  exact exchange both shown

open scoped Classical in
/-- The order of the texts does not matter. -/
theorem recount (shown : Shown t a numbers) (same : ∀ text, a.count text = b.count text) :
    Shown t b numbers :=
  shown.perm (List.perm_iff_count.mpr same)

end Shown

namespace Settled

variable {s : Numbered State}

theorem same (settled : Settled s) {α : Type} {view : State → α}
    (blind : ∀ s, view s = view s.unnumbered) : ∃ x, ∀ n, view (s n) = x :=
  ⟨view (s 0), fun n => by rw [blind, settled n, ← blind]⟩

theorem map (settled : Settled s) {f : State → State}
    (blind : ∀ s, (f s).unnumbered = (f s.unnumbered).unnumbered) : Settled fun n => f (s n) := by
  intro n
  simp only [blind (s n), settled n, ← blind]

end Settled

theorem unnumbered_layTable (act : Table.Layout → String × Table.Layout) (s : State) :
    (s.layTable act).unnumbered = (s.unnumbered.layTable act).unnumbered := by
  cases open_ : s.table <;> simp [State.layTable, State.unnumbered, open_]

namespace Extends

variable {t : Target} {s u v : Numbered State}

theorem refl (s : Numbered State) : Extends t s s :=
  ⟨id, fun _ => rfl, fun _ => rfl, fun _ => rfl, fun _ _ shown => shown⟩

theorem trans (first : Extends t s u) (second : Extends t u v) : Extends t s v where
  settled := fun settled => second.settled (first.settled settled)
  base_eq := fun n => (second.base_eq n).trans (first.base_eq n)
  notes_eq := fun n => (second.notes_eq n).trans (first.notes_eq n)
  marks_eq := fun n => (second.marks_eq n).trans (first.marks_eq n)
  shows_ := fun settled a shown =>
    second.shows_ (first.settled settled) a (first.shows_ settled a shown)

/-- A change to nothing that matters to notes. -/
theorem aside (f : State → State) (s : Numbered State)
    (aside : ∀ s, f s = { f s.unnumbered with
      out := s.out, footnotes := s.footnotes, marks := s.marks, footnoteBase := s.footnoteBase,
      strays := s.strays }) : Extends t s fun n => f (s n) where
  settled := fun settled => settled.map fun s => by rw [aside s]; rfl
  base_eq := fun n => by rw [aside]
  notes_eq := fun n => by rw [aside]
  marks_eq := fun n => by rw [aside]
  shows_ := fun _ _ shown => shown.congr fun n => by rw [aside]

theorem write (s : Numbered State) (text : String) : Extends t s fun n => (s n).write text :=
  ⟨id, fun _ => rfl, fun _ => rfl, fun _ => rfl, fun _ _ shown => shown.before text⟩

theorem layTable (s : Numbered State) (act : Table.Layout → String × Table.Layout) :
    Extends t s fun n => (s n).layTable act := by
  have kept (s : State) : (s.layTable act).footnoteBase = s.footnoteBase ∧
      (s.layTable act).footnotes = s.footnotes ∧ (s.layTable act).marks = s.marks := by
    unfold State.layTable
    split <;> exact ⟨rfl, rfl, rfl⟩
  refine ⟨fun settled => settled.map (unnumbered_layTable act), fun n => (kept (s n)).1,
    fun n => (kept (s n)).2.1, fun n => (kept (s n)).2.2, fun settled a shown => ?_⟩
  obtain ⟨table, table_eq⟩ := settled.same fun s => (rfl : s.table = s.unnumbered.table)
  cases table with
  | none => exact shown.congr fun n => by simp only [State.layTable, table_eq]
  | some layout =>
    exact (shown.before (act layout).1).congr fun n => by simp only [State.layTable, table_eq]

/-- Whether a step does one thing or another does not depend on the notes before. -/
theorem ite {c : State → Bool} (blind : ∀ s, c s = c s.unnumbered) (yes : Extends t s u)
    (no : Extends t s v) : Extends t s fun n => if c (s n) then u n else v n := by
  have picks (settled : Settled s) : (∀ n, (if c (s n) then u n else v n) = u n) ∨
      ∀ n, (if c (s n) then u n else v n) = v n := by
    obtain ⟨x, same⟩ := settled.same blind
    cases x <;> simp [same]
  refine ⟨fun settled => ?_, fun n => ?_, fun n => ?_, fun n => ?_, fun settled a shown => ?_⟩
  · obtain all | all := picks settled
    · rw [funext all]
      exact yes.settled settled
    · rw [funext all]
      exact no.settled settled
  · split
    · exact yes.base_eq n
    · exact no.base_eq n
  · split
    · exact yes.notes_eq n
    · exact no.notes_eq n
  · split
    · exact yes.marks_eq n
    · exact no.marks_eq n
  · obtain all | all := picks settled
    · simp only [all]
      exact yes.shows_ settled a shown
    · simp only [all]
      exact no.shows_ settled a shown

theorem openParagraph (flavor : Flavor) (s : Numbered State) :
    Extends t s fun n => (s n).openParagraph flavor := by
  unfold State.openParagraph
  refine ite (c := fun s => s.table.isSome) (fun _ => rfl) (layTable s _) ?_
  refine ite (c := fun s => !s.inParagraph && !s.inline && s.depth == s.blockDepth) (fun _ => rfl)
    ?_ (refl s)
  exact (write s flavor.paragraphOpen).trans (aside (fun s => { s with
    inParagraph := true, paragraphTags := s.paragraphTags ++ [.opening] }) _ fun _ => rfl)

theorem closeParagraph (flavor : Flavor) (s : Numbered State) :
    Extends t s fun n => (s n).closeParagraph flavor := by
  unfold State.closeParagraph
  refine ite (c := fun s => s.inParagraph) (fun _ => rfl) ?_ (refl s)
  have trimmed_ : Extends t s fun n => { s n with out := Text.trimEnd (s n).out } :=
    ⟨id, fun _ => rfl, fun _ => rfl, fun _ => rfl, fun _ _ shown => shown.trimEnd⟩
  exact trimmed_.trans ((write _ flavor.paragraphClose).trans (aside (fun s => { s with
    inParagraph := false, paragraphTags := s.paragraphTags ++ [.closing] }) _ fun _ => rfl))

theorem startTable (columns : Nat) (s : Numbered State) :
    Extends t s fun n => (s n).startTable columns :=
  (write s (Table.Layout.start columns).1).trans
    (⟨fun settled => settled.map (f := fun s =>
        { s with table := some (Table.Layout.start columns).2, strays := "" :: s.strays })
        fun _ => rfl, fun _ => rfl, fun _ => rfl, fun _ => rfl, fun _ _ shown => shown⟩)

theorem finishTable (outer : Option Table.Layout) (s : Numbered State) :
    Extends t s fun n => (s n).finishTable outer := by
  have kept (s : State) : (s.finishTable outer).footnoteBase = s.footnoteBase ∧
      (s.finishTable outer).footnotes = s.footnotes ∧ (s.finishTable outer).marks = s.marks := by
    unfold State.finishTable
    split <;> exact ⟨rfl, rfl, rfl⟩
  have blind (s : State) :
      (s.finishTable outer).unnumbered = (s.unnumbered.finishTable outer).unnumbered := by
    cases open_ : s.table <;> simp [State.finishTable, State.unnumbered, open_]
  refine ⟨fun settled => settled.map blind, fun n => (kept (s n)).1, fun n => (kept (s n)).2.1,
    fun n => (kept (s n)).2.2, fun settled a shown => ?_⟩
  obtain ⟨table, table_eq⟩ := settled.same fun s => (rfl : s.table = s.unnumbered.table)
  cases table with
  | none => exact shown.congr fun n => by simp only [State.finishTable, table_eq]
  | some layout =>
    exact (shown.before layout.finish).congr fun n => by simp only [State.finishTable, table_eq]

theorem writePiece (flavor : Flavor) (text : String) (s : Numbered State) :
    Extends t s fun n => writePiece flavor text (s n) := by
  unfold Walk.writePiece
  refine ite (c := fun _ => Text.allBlank text) (fun _ => rfl) ?_ ?_
  · exact ite (c := fun s => s.inParagraph) (fun _ => rfl) (write s text) (refl s)
  · refine ite (c := fun s => s.inParagraph) (fun _ => rfl) (write s text) ?_
    exact (openParagraph flavor s).trans (write _ _)

theorem writeCell (text : String) (s : Numbered State) :
    Extends t s fun n => writeCell text (s n) := by
  unfold Walk.writeCell
  refine ite (c := fun s => Text.allBlank text && !(s.table.map (·.cellOpen)).getD false)
    (fun _ => rfl) (refl s) ?_
  exact (layTable s _).trans (write _ text)

end Extends

namespace Account

variable {ctx : Context} {earlier made made' texts texts' more : List (Numbered String)}
  {s u : Numbered State}

theorem perm (account : Account ctx earlier made texts s) (same : texts.Perm texts') :
    Account ctx earlier made texts' s :=
  { account with shown := account.shown.perm (same.append_right _) }

theorem exchange (same : ∀ a, ShowsAll ctx.target a texts → ShowsAll ctx.target a texts')
    (account : Account ctx earlier made (texts ++ more) s) :
    Account ctx earlier made (texts' ++ more) s := by
  have shown := account.shown
  rw [List.append_assoc] at shown
  refine { account with shown := ?_ }
  rw [List.append_assoc]
  exact shown.exchange same

theorem kept (account : Account ctx earlier made texts s) (step : Extends ctx.target s u) :
    Account ctx earlier made texts u where
  settled := step.settled account.settled
  base_eq := fun n => (step.base_eq n).trans (account.base_eq n)
  marks_eq := fun n => (step.marks_eq n).trans (account.marks_eq n)
  notes_eq := fun n => (step.notes_eq n).trans (account.notes_eq n)
  shown := ((account.shown.perm List.perm_middle).replace
    (step.shows_ account.settled)).perm List.perm_middle.symm

/-- A text in hand is written. -/
theorem write {text : Numbered String} (account : Account ctx earlier made ([text] ++ more) s) :
    Account ctx earlier made more fun n => (s n).write (text n) := by
  refine ⟨account.settled, account.base_eq, account.marks_eq, account.notes_eq, ?_⟩
  have both : Shown ctx.target ((fun n => (s n).out) :: text :: (more ++ made.map trimmed))
      (List.range' (earlier.length + 1) made.length) := by
    apply account.shown.recount
    intro c
    simp only [List.count_append, List.count_cons, List.count_nil]
    omega
  exact both.join.perm List.perm_middle.symm

/-- The inner walk of a state starts with an account of its own. -/
theorem child (account : Account ctx earlier made texts s) :
    Account ctx (earlier ++ made) [] [] fun n => (s n).child ctx where
  settled := account.settled.map fun _ => rfl
  base_eq := fun n => by
    simp only [State.child, account.base_eq, account.notes_eq, List.length_map, List.length_append,
      Nat.add_assoc]
  marks_eq := fun n => by
    rw [List.append_nil]
    exact account.marks_eq n
  notes_eq := fun n => rfl
  shown := ⟨[], .single (.plain ""), .refl _⟩

/-- The text of an inner walk comes into hand, and its notes follow those made before. -/
theorem merge (account : Account ctx earlier made more s)
    (inner : Account ctx (earlier ++ made) made' [] u) :
    Account ctx earlier (made ++ made') ([fun n => (u n).out] ++ more)
      fun n => (s n).merge (u n) where
  settled := fun n => by
    have blind (s u : State) :
        (s.merge u).unnumbered = (s.unnumbered.merge u.unnumbered).unnumbered := rfl
    rw [blind (s n), account.settled n, inner.settled n, ← blind]
  base_eq := account.base_eq
  marks_eq := fun n => by
    rw [← List.append_assoc]
    exact inner.marks_eq n
  notes_eq := fun n => by
    simp only [State.merge, account.notes_eq, inner.notes_eq, List.map_append]
  shown := by
    have start : earlier.length + 1 + made.length = (earlier ++ made).length + 1 := by
      rw [List.length_append]
      omega
    rw [List.length_append, ← List.range'_append_1, start, List.map_append]
    apply (account.shown.append inner.shown).recount
    intro c
    simp only [State.merge, List.count_append, List.count_cons, List.count_nil]
    omega

/-- A text in hand becomes the last note, and its marker is written behind what there is. -/
theorem mark {body : Numbered String} (account : Account ctx earlier made ([body] ++ more) s)
    (before : Extends ctx.target s fun n => { u n with footnotes := (s n).footnotes })
    (noted : ∀ n, (u n).footnotes = (s n).footnotes ++ [trimmed body n]) :
    Account ctx earlier (made ++ [body]) more fun n => (u n).mark ctx.flavor (body n) := by
  have trims (a : List Nat) (one : ShowsAll ctx.target a [body]) :
      ShowsAll ctx.target a [trimmed body] :=
    .single one.of_single.trim
  have kept := (account.exchange trims).kept before
  -- The note is there already, its marker is not.
  have number (n : Nat) : (u n).footnoteBase + (u n).footnotes.length =
      n + (earlier.length + 1 + made.length) := by
    have base_eq : (u n).footnoteBase = n + earlier.length := kept.base_eq n
    rw [noted, account.notes_eq, List.length_append, List.length_map, List.length_singleton, base_eq]
    omega
  refine ⟨kept.settled, kept.base_eq, fun n => ?_, fun n => ?_, ?_⟩
  · have marks_eq : (u n).marks = _ := kept.marks_eq n
    rw [← List.append_assoc, List.mapIdx_concat]
    simp only [State.mark, number, marks_eq, List.length_append]
    congr 4
    omega
  · simp only [State.mark, State.write, noted, account.notes_eq, List.map_append, List.map_singleton]
  · rw [List.length_append, List.length_singleton, ← List.range'_append_1, List.range'_one,
      List.map_append, List.map_singleton]
    have marked := kept.shown.append (.marker (earlier.length + 1 + made.length))
    have both : Shown ctx.target ((fun n => (u n).out) ::
        (fun n => ctx.target.flavor.footnoteMarker (n + (earlier.length + 1 + made.length))) ::
          (more ++ (made.map trimmed ++ [trimmed body])))
        (List.range' (earlier.length + 1) made.length ++ [earlier.length + 1 + made.length]) := by
      apply marked.recount
      intro c
      simp only [List.count_append, List.count_cons, List.count_nil]
      omega
    simp only [State.mark, number]
    exact both.join.perm List.perm_middle.symm

end Account

theorem bind_eq_ok {α β : Type} {step : Walk α} {next : α → Walk β} {s u : State} {b : β}
    (ran : (step >>= next) s = (.ok b, u)) :
    ∃ a t, step s = (.ok a, t) ∧ next a t = (.ok b, u) := by
  simp only [Bind.bind, bind_] at ran
  split at ran
  next a t answered => exact ⟨a, t, answered, ran⟩
  next => cases ran

theorem rendering_eq_ok {α : Type} {result : Except RenderFault α} {a : α} {s t : State}
    (ran : rendering result s = (.ok a, t)) : result = .ok a ∧ t = s := by
  cases result with
  | ok =>
    cases ran
    exact ⟨rfl, rfl⟩
  | error => cases ran

theorem within_eq_ok {α : Type} {enter : State → State} {leave : State → State → State}
    {step : Walk α} {a : α} {s t : State} (ran : within enter leave step s = (.ok a, t)) :
    ∃ u, step (enter s) = (.ok a, u) ∧ t = leave s u := by
  unfold within at ran
  obtain ⟨answered, rfl⟩ := Prod.mk.inj ran
  exact ⟨_, Prod.ext answered rfl, rfl⟩

theorem asText_eq_ok {ctx : Context} {step : Walk Unit} {text : String} {s u : State}
    (ran : asText ctx step s = (.ok text, u)) :
    ∃ inner, step (s.child ctx) = (.ok (), inner) ∧ text = inner.out ∧ u = s.merge inner := by
  unfold asText at ran
  split at ran
  next inner walked =>
    cases ran
    exact ⟨inner, walked, rfl, rfl⟩
  next => cases ran

namespace Carries

variable {ctx : Context} {α β γ δ : Type} [Tells γ α] [Tells δ β] {texts : List (Numbered String)}
  {step : Numbered (Walk α)} {next : Nat → α → Walk β}

theorem pure (g : γ) (same : ∀ b, ShowsAll ctx.target b texts →
    ShowsAll ctx.target b (Tells.texts g)) :
    Carries γ ctx texts fun n => pure (Tells.answer g n) := by
  rintro earlier made more s n _ _ account ⟨⟩
  exact ⟨g, s, made, fun n => rfl, account.exchange same⟩

theorem fail (fault : Fault) : Carries γ ctx texts fun _ => Walk.fail fault := by
  rintro earlier made more s n a u account ⟨⟩

/-- What the texts in hand show may be used. -/
theorem of_shown (each : ∀ a, ShowsAll ctx.target a texts → Carries γ ctx texts step) :
    Carries γ ctx texts step := by
  intro earlier made more s n a u account ran
  obtain ⟨shown, all, -⟩ := account.shown
  rw [List.append_assoc] at all
  obtain ⟨b, -, -, front, -⟩ := all.of_append
  exact each b front earlier made more s n a u account ran

/-- The texts in hand that a step does not need are in hand behind it. -/
theorem frame (inner : Carries γ ctx [] step) {earlier made more : List (Numbered String)}
    {s : Numbered State} {n : Nat} {a : α} {u : State}
    (account : Account ctx earlier made (texts ++ more) s) (ran : step n (s n) = (.ok a, u)) :
    ∃ (g : γ) (u : Numbered State) (made' : List (Numbered String)),
      (∀ n, step n (s n) = (.ok (Tells.answer g n), u n)) ∧
        Account ctx earlier made' (texts ++ Tells.texts g ++ more) u := by
  obtain ⟨g, u, made', all, account'⟩ := inner earlier made (texts ++ more) s n a u account ran
  refine ⟨g, u, made', all, account'.perm ?_⟩
  rw [← List.append_assoc]
  exact List.perm_append_comm.append_right _

theorem seq (first : Carries γ ctx texts step)
    (second : ∀ g : γ, Carries δ ctx (Tells.texts g) fun n => next n (Tells.answer g n)) :
    Carries δ ctx texts fun n => step n >>= next n := by
  intro earlier made more s n b u account ran
  obtain ⟨a, t, answered, ran⟩ := bind_eq_ok ran
  obtain ⟨g, t', made', all, account'⟩ := first earlier made more s n a t account answered
  obtain ⟨answer_eq, rfl⟩ := Prod.mk.inj (answered.symm.trans (all n))
  obtain rfl := Except.ok.inj answer_eq
  obtain ⟨h, u', made'', all', account''⟩ := second g earlier made' more t' n b u account' ran
  refine ⟨h, u', made'', fun n => ?_, account''⟩
  simp only [Bind.bind, bind_, all n]
  exact all' n

/-- A step that needs none of the texts in hand goes first. -/
theorem bind (first : Carries γ ctx [] step)
    (second : ∀ g : γ, Carries δ ctx (texts ++ Tells.texts g) fun n => next n (Tells.answer g n)) :
    Carries δ ctx texts fun n => step n >>= next n := by
  intro earlier made more s n b u account ran
  obtain ⟨a, t, answered, ran⟩ := bind_eq_ok ran
  obtain ⟨g, t', made', all, account'⟩ := first.frame account answered
  obtain ⟨answer_eq, rfl⟩ := Prod.mk.inj (answered.symm.trans (all n))
  obtain rfl := Except.ok.inj answer_eq
  obtain ⟨h, u', made'', all', account''⟩ := second g earlier made' more t' n b u account' ran
  refine ⟨h, u', made'', fun n => ?_, account''⟩
  simp only [Bind.bind, bind_, all n]
  exact all' n

/-- Of the answer of a step that has nothing in hand, what is always so may be used. -/
theorem after_of {α : Type} {step : Walk α} {next : Nat → α → Walk β} {p : α → Prop}
    (first : Steady ctx step) (answers : ∀ s a u, step s = (.ok a, u) → p a)
    (second : ∀ a, p a → Carries δ ctx texts fun n => next n a) :
    Carries δ ctx texts fun n => step >>= next n := by
  intro earlier made more s n b u account ran
  obtain ⟨a, t, answered, ran⟩ := bind_eq_ok ran
  obtain ⟨⟨a'⟩, t', made', all, account'⟩ := first.frame account answered
  have texts_eq : texts ++ Tells.texts (Fixed.mk a') = texts := List.append_nil texts
  rw [texts_eq] at account'
  obtain ⟨answer_eq, rfl⟩ := Prod.mk.inj (answered.symm.trans (all n))
  obtain rfl := Except.ok.inj answer_eq
  obtain ⟨h, u', made'', all', account''⟩ :=
    second _ (answers _ _ _ answered) earlier made' more t' n b u account' ran
  refine ⟨h, u', made'', fun n => ?_, account''⟩
  simp only [Bind.bind, bind_, all n]
  exact all' n

theorem after {α : Type} {step : Walk α} {next : Nat → α → Walk β} (first : Steady ctx step)
    (second : ∀ a, Carries δ ctx texts fun n => next n a) :
    Carries δ ctx texts fun n => step >>= next n :=
  after_of first (fun _ _ _ _ => trivial) fun a _ => second a

/-- A step may look at the state, but not at what changes with the notes before. -/
theorem look {next : Nat → State → Walk β} (blind : ∀ n s, next n s = next n s.unnumbered)
    (each : ∀ s, Carries δ ctx texts fun n => next n s) :
    Carries δ ctx texts fun n => Walk.get >>= next n := by
  intro earlier made more s n b u account ran
  have seen (m : Nat) : (Walk.get >>= next m) (s m) = next m (s 0).unnumbered (s m) := by
    simp only [Bind.bind, bind_, Walk.get]
    rw [blind m (s m), account.settled m]
  have ran := (seen n).symm.trans ran
  obtain ⟨h, u', made', all, account'⟩ :=
    each (s 0).unnumbered earlier made more s n b u account ran
  exact ⟨h, u', made', fun m => (seen m).trans (all m), account'⟩

/-- Texts in hand are written, maybe with more around them. -/
theorem write {text : Numbered String}
    (shows_ : ∀ a, ShowsAll ctx.target a texts → Shows ctx.target a text) :
    Carries (Fixed Unit) ctx texts fun n => Walk.write (text n) := by
  rintro earlier made more s n _ _ account ⟨⟩
  refine ⟨⟨()⟩, fun n => (s n).write (text n), made, fun n => rfl, ?_⟩
  exact (account.exchange fun a all => .single (shows_ a all)).write

theorem asText {step : Walk Unit} (inner : Steady ctx step) :
    Carries (Numbered String) ctx [] fun _ => Walk.asText ctx step := by
  intro earlier made more s n text u account ran
  obtain ⟨t, answered, rfl, rfl⟩ := asText_eq_ok ran
  obtain ⟨_, t', made', all, account'⟩ := inner _ [] [] _ n () t account.child answered
  refine ⟨fun n => (t' n).out, fun n => (s n).merge (t' n), made ++ made', fun n => ?_,
    account.merge account'⟩
  have inner_ran : step ((s n).child ctx) = (.ok (), t' n) := all n
  simp only [Walk.asText, inner_ran]
  rfl

theorem note (body : Numbered String) :
    Carries (Fixed Unit) ctx [body] (fun n => do
      modify fun s => { s with footnotes := s.footnotes ++ [Text.trim (body n)] }
      Walk.openParagraph ctx
      modify (·.mark ctx.flavor (body n))) := by
  rintro earlier made more s n _ _ account ⟨⟩
  let noted : Numbered State := fun n =>
    { s n with footnotes := (s n).footnotes ++ [Text.trim (body n)] }
  have opened := Extends.openParagraph (t := ctx.target) ctx.flavor noted
  refine ⟨⟨()⟩, fun n => ((noted n).openParagraph ctx.flavor).mark ctx.flavor (body n),
    made ++ [body], fun n => rfl, account.mark ?_ opened.notes_eq⟩
  exact ⟨opened.settled, opened.base_eq, fun n => rfl, opened.marks_eq, opened.shows_⟩

end Carries

namespace Steady

variable {ctx : Context} {α β : Type} {step : Walk α} {next : α → Walk β}

theorem pure (a : α) : Steady ctx (pure a) :=
  Carries.pure (Fixed.mk a) fun _ none_ => none_

theorem bind (first : Steady ctx step) (second : ∀ a, Steady ctx (next a)) :
    Steady ctx (step >>= next) :=
  Carries.after first second

theorem look {next : State → Walk β} (blind : ∀ s, next s = next s.unnumbered)
    (each : ∀ s, Steady ctx (next s)) : Steady ctx (Walk.get >>= next) :=
  Carries.look (fun _ => blind) each

theorem fail (fault : Fault) : Steady ctx (Walk.fail fault : Walk α) := Carries.fail fault

theorem ofExcept (result : Except Fault α) : Steady ctx (Walk.ofExcept result) := by
  cases result with
  | ok a => exact pure a
  | error e => exact fail e

theorem rendering (result : Except RenderFault α) : Steady ctx (Walk.rendering result) := by
  cases result with
  | ok a => exact pure a
  | error e => exact fail _

theorem modify {f : State → State}
    (more : ∀ s : Numbered State, Extends ctx.target s fun n => f (s n)) :
    Steady ctx (Walk.modify f) := by
  rintro earlier made texts s n _ _ account ⟨⟩
  exact ⟨⟨()⟩, fun n => f (s n), made, fun n => rfl, account.kept (more s)⟩

theorem write (text : String) : Steady ctx (Walk.write text) := modify fun s => .write s text

theorem openParagraph : Steady ctx (Walk.openParagraph ctx) := modify (.openParagraph _)

theorem closeParagraph : Steady ctx (Walk.closeParagraph ctx) := modify (.closeParagraph _)

theorem record (diagnostic : Diagnostic) : Steady ctx (Walk.record diagnostic) :=
  modify fun s => .aside _ s fun _ => rfl

theorem onDisk (job : Asset.Job α) : Steady ctx (Walk.onDisk job) := by
  intro earlier made texts s n a u account ran
  obtain ⟨desk, desk_eq⟩ := account.settled.same fun s => (rfl : s.desk = s.unnumbered.desk)
  have ran_ (m : Nat) : Walk.onDisk job (s m) =
      ((desk.visit job).1, { s m with desk := (desk.visit job).2 }) := by
    rw [Walk.onDisk, desk_eq]
  obtain ⟨answered, rfl⟩ := Prod.mk.inj ((ran_ n).symm.trans ran)
  refine ⟨⟨a⟩, fun n => { s n with desk := (desk.visit job).2 }, made, fun m => ?_, ?_⟩
  · exact (ran_ m).trans (Prod.ext answered rfl)
  · exact account.kept (.aside (fun s => { s with desk := (desk.visit job).2 }) s fun _ => rfl)

/-- What a step puts back behind another one, it takes from the state before. -/
theorem within {enter : State → State} {leave : State → State → State}
    (enter_ : ∀ s : Numbered State, Extends ctx.target s fun n => enter (s n))
    (blind : ∀ s t, leave s t = leave s.unnumbered t)
    (leave_ : ∀ s, ∀ t : Numbered State, Extends ctx.target t fun n => leave s (t n))
    (inner : Steady ctx step) : Steady ctx (Walk.within enter leave step) := by
  intro earlier made texts s n a u account ran
  obtain ⟨t, answered, rfl⟩ := within_eq_ok ran
  obtain ⟨g, t', made', all, account'⟩ :=
    inner earlier made texts _ n a t (account.kept (enter_ s)) answered
  refine ⟨g, fun n => leave (s 0).unnumbered (t' n), made', fun n => ?_, account'.kept (leave_ _ t')⟩
  simp only [Walk.within, all n]
  rw [blind, account.settled n]

theorem deeper (inner : Steady ctx step) : Steady ctx (Walk.deeper step) :=
  within (.aside (fun s => { s with depth := s.depth + 1 }) · fun _ => rfl) (fun _ _ => rfl)
    (fun _ t => .aside (fun t => { t with depth := t.depth - 1 }) t fun _ => rfl) inner

theorem inlined (inner : Steady ctx step) : Steady ctx (Walk.inlined step) :=
  within (.aside (fun s => { s with inline := true }) · fun _ => rfl) (fun _ _ => rfl)
    (fun s t => .aside (fun t => { t with inline := s.inline }) t fun _ => rfl) inner

theorem blocked (inner : Steady ctx step) : Steady ctx (Walk.blocked ctx.flavor step) := by
  have depth_eq (s : State) : (s.closeParagraph ctx.flavor).depth = s.depth := by
    unfold State.closeParagraph
    split <;> rfl
  refine within (fun s => ?_) (fun _ _ => rfl) (fun s t => ?_) inner
  · have entered := (Extends.closeParagraph (t := ctx.target) ctx.flavor s).trans
      (.aside (fun s => { s with blockDepth := s.depth + 1 }) _ fun _ => rfl)
    simpa only [depth_eq] using entered
  · exact (Extends.closeParagraph ctx.flavor t).trans
      (.aside (fun t => { t with blockDepth := s.blockDepth }) _ fun _ => rfl)

theorem forM {items : List β} {act : β → Walk Unit} (each : ∀ item, Steady ctx (act item)) :
    Steady ctx (items.forM act) := by
  induction items with
  | nil => exact pure ()
  | cons item items ih =>
    exact bind (each item) fun _ => ih

end Steady

end Quire.Walk
