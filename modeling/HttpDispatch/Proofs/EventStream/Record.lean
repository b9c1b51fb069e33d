import HttpDispatch.Proofs.EventStream.Closing

/-!
# The record of an emitter

What is done with an emitter, one thing after the other, on a writer that may stop taking bytes or
fail to be flushed whenever it likes. Up to some point all blocks are delivered
(`Emitter.Entry.Goes`). The point comes when a block fails, or when the emitter is closed
(`Emitter.Entry.Ends`), and everything behind it is refused (`Emitter.Entry.Refused`). There is no
more in the record than that (`Emitter.Follows`), and what has arrived at the client can be read off
it (`Emitter.accounts_useAll`).
-/

namespace HttpDispatch.Emitter

inductive Use where
  | emit (b : Block)
  | close
  /-- From now on the peer takes another number of bytes, and flushing fails or does not. -/
  | turn (limit : Option Nat) (flushFailure : Option IoError)

inductive Answer where
  | emitted (r : Except StreamEnded Unit)
  /-- Whether this has closed the emitter. -/
  | closed (first : Bool)
  | turned

def use (e : Emitter) : Use → Answer × Emitter
  | .emit b => (.emitted (e.emit b).1, (e.emit b).2)
  | .close => (.closed e.close.1, e.close.2)
  | .turn limit flushFailure => (.turned, { e with out := { e.out with limit, flushFailure } })

def useAll (e : Emitter) : List Use → Emitter
  | [] => e
  | u :: us => (e.use u).2.useAll us

structure Entry where
  before : Emitter
  use : Use
  answer : Answer
  after : Emitter

def entry (e : Emitter) (u : Use) : Entry :=
  { before := e, use := u, answer := (e.use u).1, after := (e.use u).2 }

def record (e : Emitter) : List Use → List Entry
  | [] => []
  | u :: us => e.entry u :: (e.use u).2.record us

def Use.refusal : Use → Answer
  | emit _ => .emitted (.error .closed)
  | close => .closed false
  | turn _ _ => .turned

def Use.bytes : Use → Bytes
  | emit b => b.bytes
  | close | turn _ _ => []

namespace Entry

/-- The block, if the call has succeeded. -/
def delivered (x : Entry) : Bytes :=
  match x.answer with
  | .emitted (.ok ()) => x.use.bytes
  | _ => []

/-- A block could not be written, or not be flushed. -/
def fails (x : Entry) : Bool :=
  match x.answer with
  | .emitted (.error _) => !x.before.isShut
  | _ => false

/-- A block has been refused, or the emitter has been closed, if it was not already. -/
def Tells (x : Entry) : Prop :=
  x.answer = .emitted (.error .closed) ∨ x.use = .close

/-- Nothing has happened yet that keeps blocks from being sent. -/
structure Goes (x : Entry) : Prop where
  before : x.before.state = .sending
  after : x.after.state = .sending
  tells : ¬ x.Tells
  fails : x.fails = false
  written : x.after.out.written = x.before.out.written ++ x.delivered

/-- Now it does. -/
structure Ends (x : Entry) : Prop where
  before : x.before.state = .sending
  after : x.after.state = .shut
  tells : x.Tells
  delivered : x.delivered = []
  /-- Of a block that fails, a beginning arrives. -/
  torn : ∃ torn, x.after.out.written = x.before.out.written ++ torn ∧
    torn <+: if x.fails then x.use.bytes else []

/-- It has happened before. -/
structure Refused (x : Entry) : Prop where
  before : x.before.state = .shut
  after : x.after.state = .shut
  answer : x.answer = x.use.refusal
  written : x.after.out.written = x.before.out.written

variable {x : Entry}

theorem Refused.delivered (h : x.Refused) : x.delivered = [] := by
  unfold Entry.delivered
  rw [h.answer]
  cases x.use <;> rfl

theorem Refused.fails (h : x.Refused) : x.fails = false := by
  unfold Entry.fails
  split
  · rw [isShut, h.before]
    rfl
  · rfl

theorem Refused.answer_ne (h : x.Refused) : x.answer ≠ .closed true := by
  rw [h.answer]
  cases x.use <;> exact fun h => nomatch h

end Entry

/-- From one emitter to another, this is all that can be in the record if it is not muted. -/
inductive Follows : Emitter → List Entry → Emitter → Prop
  | nil {e : Emitter} (hs : e.state = .sending) : Follows e [] e
  | goes {d : Emitter} {x : Entry} {xs : List Entry} (h : x.Goes) (hrest : Follows x.after xs d) :
    Follows x.before (x :: xs) d
  | ends {d : Emitter} {x : Entry} {xs : List Entry} (h : x.Ends) (hrest : ∀ y ∈ xs, y.Refused)
    (hs : d.state = .shut) (hwritten : d.out.written = x.after.out.written) :
      Follows x.before (x :: xs) d

variable {e d : Emitter} {x : Entry} {xs : List Entry}

/-!
## One use
-/

theorem entry_emit (e : Emitter) (b : Block) :
    e.entry (.emit b) = ⟨e, .emit b, .emitted (e.emit b).1, (e.emit b).2⟩ := rfl

theorem written_close (e : Emitter) : e.close.2.out.written = e.out.written := by
  have hflush := e.out.written_flush
  unfold close
  cases e.state with
  | shut | muted => rfl
  | sending =>
      dsimp only
      generalize e.out.flush = r at hflush
      obtain ⟨cause | ⟨⟩, out⟩ := r <;> exact hflush

/-- An emitter that sends goes on with what is done with it, or it ends there. -/
theorem goes_or_ends (hs : e.state = .sending) (u : Use) : (e.entry u).Goes ∨ (e.entry u).Ends := by
  cases u with
  | emit b =>
      rw [entry_emit]
      obtain ⟨-, -, hemit⟩ | ⟨-, cause, hemit⟩ := emit_cases hs b
      · rw [hemit]
        refine .inl ⟨hs, hs, ?_, rfl, rfl⟩
        rintro (h | h) <;> cases h
      · rw [hemit]
        have hfails : e.isShut = false := by
          rw [isShut, hs]
          rfl
        refine .inr ⟨hs, rfl, .inl rfl, rfl, e.out.taken b.bytes, rfl, ?_⟩
        rw [Entry.fails, hfails, Bool.not_false, if_pos rfl]
        exact e.out.taken_prefix b.bytes
  | close =>
      refine .inr ⟨hs, (isShut_iff _).1 e.isShut_close, .inr rfl, rfl, [], ?_, List.nil_prefix⟩
      rw [List.append_nil]
      exact e.written_close
  | turn limit flushFailure =>
      refine .inl ⟨hs, hs, ?_, rfl, (List.append_nil _).symm⟩
      rintro (h | h) <;> cases h

theorem refused_entry (hs : e.state = .shut) (u : Use) : (e.entry u).Refused := by
  cases u with
  | emit b =>
      rw [entry_emit, emit, hs]
      exact ⟨hs, hs, rfl, rfl⟩
  | close =>
      unfold entry use close
      rw [hs]
      exact ⟨hs, hs, rfl, rfl⟩
  | turn limit flushFailure => exact ⟨hs, hs, rfl, rfl⟩

/-- An emitter is shut once it has told so, and stays shut. -/
theorem isShut_entry (e : Emitter) (u : Use) :
    (e.entry u).after.isShut = true ↔ e.isShut = true ∨ (e.entry u).Tells := by
  cases u with
  | emit b =>
      have hshut := e.isShut_emit b
      rw [entry_emit]
      dsimp only [Entry.Tells]
      rw [hshut]
      refine ⟨fun h => .inr (.inl (congrArg Answer.emitted h)), ?_⟩
      rintro (hs | h | h)
      · rw [emit, (isShut_iff e).1 hs]
      · exact Answer.emitted.inj h
      · cases h
  | close => exact iff_of_true e.isShut_close (.inr (.inr rfl))
  | turn limit flushFailure =>
      refine ⟨.inl, ?_⟩
      rintro (hs | h | h)
      · exact hs
      · cases h
      · cases h

theorem emit_eq_ok_iff (hs : e.state ≠ .muted) (b : Block) :
    (e.emit b).1 = .ok () ↔
      e.isShut = false ∧ e.out.taken b.bytes = b.bytes ∧ e.out.flushFailure = none := by
  cases hstate : e.state with
  | muted => exact absurd hstate hs
  | shut =>
      rw [emit, isShut, hstate]
      refine iff_of_false (by rintro ⟨⟩) ?_
      rintro ⟨h, -⟩
      cases h
  | sending =>
      rw [isShut, hstate]
      obtain ⟨htaken, hflush, hemit⟩ | ⟨hcause, cause, hemit⟩ := emit_cases hstate b
      · rw [hemit]
        exact iff_of_true rfl ⟨rfl, htaken, hflush⟩
      · rw [hemit]
        refine iff_of_false (by rintro ⟨⟩) ?_
        rintro ⟨-, htaken, hflush⟩
        obtain hmissing | hfailure := hcause
        · exact hmissing htaken
        · exact hfailure hflush

theorem close_eq_true_iff (e : Emitter) : e.close.1 = true ↔ e.isShut = false := by
  unfold close isShut
  cases hs : e.state with
  | shut => exact iff_of_false Bool.false_ne_true fun h => nomatch h
  | muted => exact iff_of_true rfl rfl
  | sending =>
      dsimp only
      generalize e.out.flush = r
      obtain ⟨cause | ⟨⟩, out⟩ := r <;> exact iff_of_true rfl rfl

/-!
## The whole record
-/

theorem exists_entry_of_mem (us : List Use) (hx : x ∈ e.record us) : ∃ d u, x = entry d u := by
  induction us generalizing e with
  | nil => exact absurd hx List.not_mem_nil
  | cons u us ih =>
      obtain rfl | hx := List.mem_cons.1 hx
      · exact ⟨e, u, rfl⟩
      · exact ih hx

theorem refused_record (hs : e.state = .shut) (us : List Use) :
    (∀ x ∈ e.record us, x.Refused) ∧
      (e.useAll us).state = .shut ∧ (e.useAll us).out.written = e.out.written := by
  induction us generalizing e with
  | nil => exact ⟨fun _ h => absurd h List.not_mem_nil, hs, rfl⟩
  | cons u us ih =>
      have hfirst := refused_entry hs u
      obtain ⟨hrest, hshut, hwritten⟩ := ih hfirst.after
      exact ⟨List.forall_mem_cons.2 ⟨hfirst, hrest⟩, hshut, hwritten.trans hfirst.written⟩

/-- The record of an emitter that sends, by what its first entry is. -/
theorem follows_record (hs : e.state = .sending) (us : List Use) :
    Follows e (e.record us) (e.useAll us) := by
  induction us generalizing e with
  | nil => exact .nil hs
  | cons u us ih =>
      obtain hgoes | hends := goes_or_ends hs u
      · exact .goes hgoes (ih hgoes.after)
      · obtain ⟨hrest, hshut, hwritten⟩ := refused_record hends.after us
        exact .ends hends hrest hshut hwritten

namespace Follows

theorem written (h : Follows e xs d) :
    ∃ torn, d.out.written = e.out.written ++ xs.flatMap Entry.delivered ++ torn ∧
      torn <+: (xs.find? Entry.fails).elim [] (Use.bytes ∘ Entry.use) := by
  induction h with
  | nil => exact ⟨[], by simp, List.nil_prefix⟩
  | goes h _ ih =>
      obtain ⟨torn, hwritten, htorn⟩ := ih
      refine ⟨torn, ?_, ?_⟩
      · rw [hwritten, h.written, List.flatMap_cons, List.append_assoc _ _ (List.flatMap _ _)]
      · rwa [List.find?_cons_of_neg (by rw [h.fails]; exact Bool.false_ne_true)]
  | @ends d x xs h hrest hs hwritten =>
      obtain ⟨torn, harrived, htorn⟩ := h.torn
      have hnone : xs.flatMap Entry.delivered = [] :=
        List.flatMap_eq_nil_iff.2 fun y hy => (hrest y hy).delivered
      have hnofail : xs.find? Entry.fails = none :=
        List.find?_eq_none.2 fun y hy => Bool.eq_false_iff.1 (hrest y hy).fails
      refine ⟨torn, ?_, ?_⟩
      · rw [hwritten, harrived, List.flatMap_cons, h.delivered, hnone]
        simp
      · rw [List.find?_cons, hnofail]
        cases hfails : x.fails with
        | true =>
            rw [hfails, if_pos rfl] at htorn
            exact htorn
        | false =>
            rw [hfails, if_neg Bool.false_ne_true] at htorn
            exact htorn

theorem pairwise (h : Follows e xs d) : xs.Pairwise fun x y => x.Tells → y.Refused := by
  induction h with
  | nil => exact .nil
  | goes h _ ih => exact ih.cons fun _ _ htells => absurd htells h.tells
  | ends h hrest =>
      refine .cons (fun y hy _ => hrest y hy) (List.pairwise_iff_getElem.2 ?_)
      exact fun i j hi hj _ _ => hrest _ (List.getElem_mem hj)

theorem isShut_iff (h : Follows e xs d) : d.isShut = true ↔ ∃ x ∈ xs, x.Tells := by
  induction h with
  | @nil e hs =>
      rw [isShut, hs]
      exact iff_of_false Bool.false_ne_true fun ⟨_, hx, _⟩ => List.not_mem_nil hx
  | goes h _ ih =>
      rw [ih]
      simp only [List.mem_cons, exists_eq_or_imp, h.tells, false_or]
  | ends h _ hs => exact iff_of_true ((Emitter.isShut_iff _).2 hs) ⟨_, List.mem_cons_self, h.tells⟩

theorem state_ne_muted (h : Follows e xs d) : ∀ x ∈ xs, x.before.state ≠ .muted := by
  induction h with
  | nil => exact fun _ hx => absurd hx List.not_mem_nil
  | goes h _ ih =>
      refine List.forall_mem_cons.2 ⟨?_, ih⟩
      rw [h.before]
      exact EmitterState.noConfusion
  | ends h hrest =>
      refine List.forall_mem_cons.2 ⟨?_, fun y hy => ?_⟩
      · rw [h.before]
        exact EmitterState.noConfusion
      · rw [(hrest y hy).before]
        exact EmitterState.noConfusion

end Follows

structure Accounts (e : Emitter) (us : List Use) : Prop where
  /-- What has arrived are the blocks that were delivered, and a beginning of the one that failed,
  if one did. -/
  written : ∃ torn, (e.useAll us).out.written =
    e.out.written ++ (e.record us).flatMap Entry.delivered ++ torn ∧
    torn <+: ((e.record us).find? Entry.fails).elim [] (Use.bytes ∘ Entry.use)
  emitted : ∀ x ∈ e.record us, ∀ b, x.use = .emit b → (x.answer = .emitted (.ok ()) ↔
    x.before.isShut = false ∧ x.before.out.taken b.bytes = b.bytes ∧
    x.before.out.flushFailure = none)
  closed : ∀ x ∈ e.record us, x.use = .close → (x.answer = .closed true ↔ x.before.isShut = false)
  shut : ∀ x ∈ e.record us, (x.after.isShut = true ↔ x.before.isShut = true ∨ x.Tells)
  /-- Everything is refused after the first block that was refused, or after the emitter
  was closed. -/
  refused : (e.record us).Pairwise fun x y => x.Tells → y.Refused
  /-- So it is closed once at most, and not after a block that was refused. -/
  closedOnce : (e.record us).Pairwise fun x y => x.Tells → y.answer ≠ .closed true
  isShut : (e.useAll us).isShut = true ↔ ∃ x ∈ e.record us, x.Tells

/-- An emitter on any writer, whatever is done with it. -/
theorem accounts_useAll (out : Writer) (log : List LogEvent) (us : List Use) :
    Accounts { out, log } us := by
  have h := follows_record (e := { out, log }) rfl us
  have hrefused := h.pairwise
  have honce := hrefused.imp fun hxy htells => (hxy htells).answer_ne
  refine ⟨h.written, ?emitted, ?closed, ?shut, hrefused, honce, h.isShut_iff⟩
  case emitted =>
    rintro x hx b hb
    have hs := h.state_ne_muted x hx
    obtain ⟨d, u, rfl⟩ := exists_entry_of_mem us hx
    obtain rfl : u = .emit b := hb
    rw [← emit_eq_ok_iff hs, entry_emit]
    exact ⟨Answer.emitted.inj, congrArg Answer.emitted⟩
  case closed =>
    rintro x hx hclose
    obtain ⟨d, u, rfl⟩ := exists_entry_of_mem us hx
    obtain rfl : u = .close := hclose
    exact ⟨fun h => d.close_eq_true_iff.1 (Answer.closed.inj h),
      fun h => congrArg _ (d.close_eq_true_iff.2 h)⟩
  case shut =>
    rintro x hx
    obtain ⟨d, u, rfl⟩ := exists_entry_of_mem us hx
    exact d.isShut_entry u

/-- A client that leaves after twelve bytes, in the middle of the second block. -/
def leaving : Emitter := { out := { limit := some 12 } }

def overlong : List Use :=
  [.emit (.comment "on"), .emit (.event { data := "over" }), .turn none none,
    .emit (.comment "off"), .close]

/-- Nothing is sent after the block that was torn, not even when there is room again. -/
theorem accounts_useAll_overlong :
    (leaving.record overlong).map Entry.delivered = [Text.encode ": on\n", [], [], [], []] ∧
      (leaving.useAll overlong).out.written = Text.encode ": on\ndata: o" ∧
      leaving.Accounts overlong :=
  ⟨by decide +kernel, by decide +kernel, accounts_useAll { limit := some 12 } [] overlong⟩

end HttpDispatch.Emitter
