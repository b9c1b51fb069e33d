import HttpDispatch.Program.Run

/-!
# The calls that a program makes

Which calls a program makes depends on what is answered, so they are listed along a run of it, with
those that the handler of the route makes when the program calls it (`Program.calls`). What holds of
a run and is kept by the calls of a certain kind is kept by every program that makes no others
(`Program.holds_run`). That a program makes no others, whatever it is answered, can be read off its
tree (`Program.Makes`).
-/

namespace HttpDispatch

variable {σ α : Type}

namespace Program

/-- The calls that a program makes when it is run; `inRoute` are those that the handler of the route
makes. -/
def callsWith (route : Run σ → Option (Ending Response) × Run σ) (inRoute : Run σ → List (Call σ)) :
    Program σ α → Run σ → List (Call σ)
  | done _, _ | fail _, _ | panic _, _ => []
  | call c next, r => c :: callsWith route inRoute (next (r.perform c).1) (r.perform c).2
  | callRoute next, r =>
    inRoute r.dropStream ++
      match route r.dropStream with
      | (none, r) => callsWith route inRoute (next none) r
      | (some (.ok a), r) => callsWith route inRoute (next (some (.ok a))) r
      | (some (.failed e), r) => callsWith route inRoute (next (some (.error e))) r
      | (some (.panicked _), _) => []

def routeCalls (handler : Option (Handler σ)) : Nat → Run σ → List (Call σ)
  | 0, _ => []
  | depth + 1, r =>
    match handler with
    | none => []
    | some h => h.callsWith (runRoute handler depth) (routeCalls handler depth) r

def calls (handler : Option (Handler σ)) (p : Program σ α) (r : Run σ) : List (Call σ) :=
  p.callsWith (runRoute handler r.nesting.depth) (routeCalls handler r.nesting.depth) r

end Program

/-- The calls of a kind keep what holds of a run, and what a program leaves open may be let go. -/
structure Call.Keeps (kind : Call σ → Prop) (P : Run σ → Prop) : Prop where
  perform : ∀ r c, kind c → P r → P (r.perform c).2
  streamDrop : kind .streamDrop
  dropEvents : ∀ n, kind (.dropEvents n)

section

variable {kind : Call σ → Prop} {P : Run σ → Prop} {r : Run σ}

theorem Call.Keeps.dropStream (hk : Call.Keeps kind P) (hr : P r) : P r.dropStream :=
  hk.perform r .streamDrop hk.streamDrop hr

theorem Call.Keeps.settle (hk : Call.Keeps kind P) (hr : P r) (first : Nat) :
    P (r.settle first) := by
  have hfold : ∀ (ns : List Nat) {r : Run σ}, P r → P (ns.foldl Run.dropEvents r) := by
    intro ns
    induction ns with
    | nil => exact fun hr => hr
    | cons n ns ih => exact fun hr => ih (hk.perform _ (.dropEvents n) (hk.dropEvents n) hr)
  exact hfold _ (hk.dropStream hr)

namespace Program

variable {route : Run σ → Option (Ending Response) × Run σ} {inRoute : Run σ → List (Call σ)}

theorem holds_runWith (hk : Call.Keeps kind P)
    (hroute : ∀ r, (∀ c ∈ inRoute r, kind c) → P r → P (route r).2) (p : Program σ α)
    (hcalls : ∀ c ∈ p.callsWith route inRoute r, kind c) (hr : P r) : P (p.runWith route r).2 := by
  induction p generalizing r with
  | done a => exact hr
  | fail e => exact hr
  | panic m => exact hr
  | call c next ih =>
      obtain ⟨hc, hnext⟩ := List.forall_mem_cons.1 hcalls
      exact ih _ hnext (hk.perform r c hc hr)
  | callRoute next ih =>
      rw [callsWith] at hcalls
      obtain ⟨hinside, hnext⟩ := List.forall_mem_append.1 hcalls
      have hreturned := hroute _ hinside (hk.dropStream hr)
      rw [runWith]
      generalize route r.dropStream = called at hnext hreturned ⊢
      rcases called with ⟨_ | ⟨a | e | m⟩, r₁⟩
      · exact ih _ hnext hreturned
      · exact ih _ hnext hreturned
      · exact ih _ hnext hreturned
      · exact hreturned

theorem holds_runRoute (hk : Call.Keeps kind P) (handler : Option (Handler σ)) (depth : Nat)
    (hcalls : ∀ c ∈ routeCalls handler depth r, kind c) (hr : P r) :
    P (runRoute handler depth r).2 := by
  induction depth generalizing r with
  | zero => exact hr
  | succ depth ih =>
      cases handler with
      | none => exact hr
      | some h => exact hk.settle (holds_runWith hk (fun _ => ih) h hcalls hr) _

/-- What the calls of a kind keep is kept by a program that makes no others. -/
theorem holds_run (hk : Call.Keeps kind P) (handler : Option (Handler σ)) (p : Program σ α)
    (hcalls : ∀ c ∈ p.calls handler r, kind c) (hr : P r) : P (p.run handler r).2 :=
  hk.settle (holds_runWith hk (fun _ => holds_runRoute hk handler r.nesting.depth) p hcalls hr) _

end Program

end

namespace Program

/-- Whatever it is answered, the program makes no calls but those of a kind. -/
def Makes (kind : Call σ → Prop) : Program σ α → Prop
  | done _ | fail _ | panic _ => True
  | call c next => kind c ∧ ∀ answer, (next answer).Makes kind
  | callRoute next => ∀ answer, (next answer).Makes kind

variable {kind : Call σ → Prop}

theorem Makes.of_mem_callsWith {route : Run σ → Option (Ending Response) × Run σ}
    {inRoute : Run σ → List (Call σ)} (hroute : ∀ r, ∀ c ∈ inRoute r, kind c) {p : Program σ α}
    (hp : p.Makes kind) (r : Run σ) : ∀ c ∈ p.callsWith route inRoute r, kind c := by
  induction p generalizing r with
  | done a => exact List.forall_mem_nil _
  | fail e => exact List.forall_mem_nil _
  | panic m => exact List.forall_mem_nil _
  | call c next ih => exact List.forall_mem_cons.2 ⟨hp.1, ih _ (hp.2 _) _⟩
  | callRoute next ih =>
      rw [callsWith]
      refine List.forall_mem_append.2 ⟨hroute _, ?_⟩
      generalize route r.dropStream = called
      rcases called with ⟨_ | ⟨a | e | m⟩, r₁⟩
      · exact ih _ (hp _) _
      · exact ih _ (hp _) _
      · exact ih _ (hp _) _
      · exact List.forall_mem_nil _

theorem Makes.of_mem_routeCalls {handler : Option (Handler σ)} (hh : ∀ h ∈ handler, h.Makes kind)
    (depth : Nat) (r : Run σ) : ∀ c ∈ routeCalls handler depth r, kind c := by
  induction depth generalizing r with
  | zero => exact List.forall_mem_nil _
  | succ depth ih =>
      cases handler with
      | none => exact List.forall_mem_nil _
      | some h => exact (hh h rfl).of_mem_callsWith ih r

/-- A program that makes calls of a kind only may call the handler of the route if that
does, too. -/
theorem Makes.holds_run {P : Run σ → Prop} (hk : Call.Keeps kind P) {handler : Option (Handler σ)}
    (hh : ∀ h ∈ handler, h.Makes kind) {p : Program σ α} (hp : p.Makes kind) {r : Run σ}
    (hr : P r) :
    P (p.run handler r).2 :=
  Program.holds_run hk handler p (hp.of_mem_callsWith (of_mem_routeCalls hh r.nesting.depth) r) hr

end Program

end HttpDispatch
