import HttpDispatch.Proofs.Program.Report

/-!
# Programs that behave alike

Two programs behave alike if they make the same calls and go on alike whatever is answered, and end
in ways that a relation allows (`Program.Alike`). Where they call the handler of the route, they
have to go on alike for any two endings of it that another relation allows. Run from states that
differ in their reports only, two such programs end in ways that the relation allows, and leave
states that differ in their reports only.
-/

namespace HttpDispatch

variable {σ α : Type}

namespace Program

def ofEnding : Ending α → Program σ α
  | .ok a => done a
  | .failed e => fail e
  | .panicked reason => panic reason

/-- How a program that has called the handler of its route goes on when that has ended. -/
def resume (next : Option (Except DispatchError Response) → Program σ α) :
    Ending Response → Program σ α
  | .ok a => next (some (.ok a))
  | .failed e => next (some (.error e))
  | .panicked reason => panic reason

/-- The programs make the same calls. Where they end, `ends` relates the endings; `routes` relates
the endings of the handler of the route, for which they go on alike. -/
inductive Alike (routes : Ending Response → Ending Response → Prop)
    (ends : Ending α → Ending α → Prop) : Program σ α → Program σ α → Prop
  | ends {e e' : Ending α} (h : ends e e') : Alike routes ends (ofEnding e) (ofEnding e')
  | call (c : Call σ) {next next' : c.Answer → Program σ α}
    (h : ∀ answer, Alike routes ends (next answer) (next' answer)) :
    Alike routes ends (.call c next) (.call c next')
  | callRoute {next next' : Option (Except DispatchError Response) → Program σ α}
    (hnone : Alike routes ends (next none) (next' none))
    (h : ∀ e e', routes e e' → Alike routes ends (resume next e) (resume next' e')) :
    Alike routes ends (.callRoute next) (.callRoute next')

def RoutesAlike (routes : Ending Response → Ending Response → Prop)
    (route route' : Run σ → Option (Ending Response) × Run σ) : Prop :=
  ∀ r r' : Run σ, r.unreported = r'.unreported →
    Option.Rel routes (route r).1 (route' r').1 ∧ (route r).2.unreported = (route' r').2.unreported

variable {routes : Ending Response → Ending Response → Prop} {ends : Ending α → Ending α → Prop}
  {route route' : Run σ → Option (Ending Response) × Run σ} {p p' : Program σ α} {r r' : Run σ}

theorem Alike.refl (hends : ∀ e, ends e e) (p : Program σ α) : Alike Eq ends p p := by
  induction p with
  | done a => exact .ends (hends (.ok a))
  | fail e => exact .ends (hends (.failed e))
  | panic m => exact .ends (hends (.panicked m))
  | call c next ih => exact .call c ih
  | callRoute next ih =>
      refine .callRoute (ih none) ?_
      rintro e _ rfl
      cases e with
      | ok a => exact ih _
      | failed e => exact ih _
      | panicked m => exact .ends (hends (.panicked m))

theorem Alike.mono {ends' : Ending α → Ending α → Prop} (h : Alike routes ends p p')
    (hends : ∀ e e', ends e e' → ends' e e') : Alike routes ends' p p' := by
  induction h with
  | ends h => exact .ends (hends _ _ h)
  | call c _ ih => exact .call c ih
  | callRoute _ _ ihnone ih => exact .callRoute ihnone ih

theorem runWith_ofEnding (e : Ending α) (r : Run σ) : (ofEnding e).runWith route r = (e, r) := by
  cases e <;> rfl

theorem runWith_callRoute (next : Option (Except DispatchError Response) → Program σ α)
    (r : Run σ) : (callRoute next).runWith route r =
      match route r.dropStream with
      | (none, r) => (next none).runWith route r
      | (some e, r) => (resume next e).runWith route r := by
  rw [runWith]
  rcases route r.dropStream with ⟨_ | ⟨a | e | m⟩, r⟩ <;> rfl

theorem Alike.runWith (h : p.Alike routes ends p') (hroute : RoutesAlike routes route route')
    (hr : r.unreported = r'.unreported) :
    ends (p.runWith route r).1 (p'.runWith route' r').1 ∧
      (p.runWith route r).2.unreported = (p'.runWith route' r').2.unreported := by
  induction h generalizing r r' with
  | ends h =>
      rw [runWith_ofEnding, runWith_ofEnding]
      exact ⟨h, hr⟩
  | call c _ ih =>
      have hcall := Run.agrees_perform c hr
      rw [Program.runWith, Program.runWith]
      refine hcall.elim fun answer r r' h => ?_
      exact ih answer h
  | callRoute _ _ ihnone ih =>
      have hcalled := hroute _ _ (Run.unreported_dropStream hr)
      rw [runWith_callRoute, runWith_callRoute]
      generalize route r.dropStream = called at hcalled ⊢
      generalize route' r'.dropStream = called' at hcalled ⊢
      obtain ⟨e, r₁⟩ := called
      obtain ⟨e', r₁'⟩ := called'
      obtain ⟨hrel, hr₁⟩ := hcalled
      cases hrel with
      | none => exact ihnone hr₁
      | some he => exact ih _ _ he hr₁

theorem Alike.runAndSettle (h : p.Alike routes ends p') (hroute : RoutesAlike routes route route')
    (hr : r.unreported = r'.unreported) :
    ends (p.runAndSettle route r).1 (p'.runAndSettle route' r').1 ∧
      (p.runAndSettle route r).2.unreported = (p'.runAndSettle route' r').2.unreported := by
  obtain ⟨hends, hafter⟩ := h.runWith hroute hr
  refine ⟨hends, ?_⟩
  change ((p.runWith route r).2.settle r.events.length).unreported =
    ((p'.runWith route' r').2.settle r'.events.length).unreported
  rw [Run.length_events hr]
  exact Run.unreported_settle _ hafter

theorem routesAlike_runRoute (hrefl : ∀ e, routes e e) {handler handler' : Option (Handler σ)}
    (h : Option.Rel (Alike routes routes) handler handler') (depth : Nat) :
    RoutesAlike routes (runRoute handler depth) (runRoute handler' depth) := by
  induction depth with
  | zero =>
      intro r r' hr
      cases h with
      | none => exact ⟨.none, hr⟩
      | some h => exact ⟨.some (Run.nesting_eq hr ▸ hrefl _), hr⟩
  | succ depth ih =>
      intro r r' hr
      cases h with
      | none => exact ⟨.none, hr⟩
      | some h =>
          obtain ⟨hends, hafter⟩ := h.runAndSettle ih hr
          exact ⟨.some hends, hafter⟩

/-- Programs that behave alike end alike, and leave states that differ in their reports only. -/
theorem Alike.run (hrefl : ∀ e, routes e e) {handler handler' : Option (Handler σ)}
    (hh : Option.Rel (Alike routes routes) handler handler') (h : p.Alike routes ends p')
    (hr : r.unreported = r'.unreported) :
    ends (p.run handler r).1 (p'.run handler' r').1 ∧
      (p.run handler r).2.unreported = (p'.run handler' r').2.unreported := by
  unfold Program.run
  rw [← Run.nesting_eq hr]
  exact h.runAndSettle (routesAlike_runRoute hrefl hh r.nesting.depth) hr

end Program

end HttpDispatch
