import LoxScript.Proofs.Counterpart.Sessions
import LoxScript.Proofs.Session.Renaming

namespace LoxScript

/-!
# Rejected sources leave no trace

A source that is rejected changes nothing but which identities are handed out
next, and no run depends on these: wherever a session is given such a source,
everything else that its host sees stays the same.
-/

section NoLines

/-- A token that is moved by no lines stays where it is. -/
@[simp] theorem Token.moved_zero
    (token : Token) :
    token.moved 0 = token := by
  simp [Token.moved]

/-- Tokens that are shifted by no lines are the same. -/
theorem Token.Shifted.eq_of_zero
    {token image : Token}
    (shifted : token.Shifted 0 image) :
    image = token := by
  cases shifted with
  | same => rfl
  | moved => exact token.moved_zero

/-- An error that is moved by no lines stays the same. -/
theorem RuntimeError.moved_zero
    (error : RuntimeError) :
    error.moved 0 = error := by
  cases error <;> simp only [RuntimeError.moved, Int.add_zero]

/-- Outcomes that are shifted by no lines are the same. -/
theorem Outcome.Shifted.eq_of_zero
    {outcome image : Outcome}
    (shifted : outcome.Shifted 0 image) :
    image = outcome := by
  cases shifted with
  | same => rfl
  | failed errors =>
      cases errors with
      | same => rfl
      | moved => rw [RuntimeError.moved_zero]

end NoLines

/-- Codes that are the same but for the identities of their nodes, which have
the same distances. -/
def Machine.renumbering (machine image : Machine) : Correspondence :=
  ⟨Eq, machine.Links image⟩

/-- Codes that are linked on the same lines are the same but for the identities
of their nodes. -/
theorem Machine.within_renumbering
    (machine image : Machine) :
    (machine.linked 0 image).Within (machine.renumbering image) :=
  ⟨fun _ _ shifted => shifted.eq_of_zero.symm, fun _ _ links => links⟩

/-- What a host has after an action: how the run ended, if the action runs
something, and its session. -/
structure Moment where
  outcome : Option Outcome
  session : Session

/-- A host cannot tell the one from the other: not by the outcome, the output or
the world, nor by the global variables, whose functions may differ in the
identities of nodes only. -/
structure Moment.Indistinct (moment other : Moment) : Prop where
  outcome : other.outcome = moment.outcome
  output : other.session.machine.output = moment.session.machine.output
  world : other.session.machine.world = moment.session.machine.world
  globals :
    ∀ name,
      Option.Rel (moment.session.machine.renumbering
        other.session.machine).Values
        (moment.session.global? name) (other.session.global? name)

namespace Session

variable {kept : Function → Prop} {offered : ByteArray → Prop}
  {session image : Session}

/-- What a host has after each of its actions. -/
def history (session : Session) : List HostAction → List Moment
  | [] => []
  | action :: rest =>
      ⟨session.outcome? action, session.perform action⟩ ::
        (session.perform action).history rest

/-- The session, with other identities for what it compiles from now on. -/
def numberedFrom (session : Session) (next : NodeId) : Session :=
  { session with machine := { session.machine with nextNode := next } }

/-- Actions after others have their history after that of the others. -/
theorem history_append
    (session : Session)
    (before after : List HostAction) :
    session.history (before ++ after) =
      session.history before ++ (session.performAll before).history after := by
  induction before generalizing session with
  | nil => rfl
  | cons action rest inductionHypothesis =>
      simp only [List.cons_append, history, inductionHypothesis, performAll,
        List.foldl_cons]

/-- There is one moment for each action. -/
@[simp] theorem length_history
    (session : Session)
    (actions : List HostAction) :
    (session.history actions).length = actions.length := by
  induction actions generalizing session with
  | nil => rfl
  | cons action rest inductionHypothesis =>
      simp only [history, List.length_cons, inductionHypothesis]

namespace Counterpart

/-- A host cannot tell the histories of counterparts from each other. -/
theorem history
    {actions : List HostAction}
    (counterpart : session.Counterpart 0 kept image)
    (blind : ∀ native ∈ session.natives, native.BlindBut kept)
    (blindActions : ∀ action ∈ actions, action.BlindBut kept) :
    List.Forall₂ Moment.Indistinct (session.history actions)
      (image.history actions) := by
  induction actions generalizing session image with
  | nil => exact .nil
  | cons action rest inductionHypothesis =>
      obtain ⟨outcomes, after⟩ := counterpart.perform blind action
      have blindRest :=
        blind_perform blind (blindActions action List.mem_cons_self)
      refine .cons ⟨?_, after.machine.output, after.machine.world, ?_⟩
        (inductionHypothesis after blindRest fun other member =>
          blindActions other (List.mem_cons_of_mem _ member))
      · dsimp only
        generalize session.outcome? action = outcome at outcomes ⊢
        generalize image.outcome? action = outcomeImage at outcomes ⊢
        cases outcomes with
        | none => rfl
        | some shifted => rw [shifted.eq_of_zero]
      · intro name
        exact relWiden (after.machine.store.bindings globalFrame name)
          fun _ _ twins =>
            twins.widen (Machine.within_renumbering _ _).likeness

/-- After the same actions counterparts are counterparts again. -/
theorem performAll
    {actions : List HostAction}
    (counterpart : session.Counterpart 0 kept image)
    (blind : ∀ native ∈ session.natives, native.BlindBut kept)
    (blindActions : ∀ action ∈ actions, action.BlindBut kept) :
    (session.performAll actions).Counterpart 0 kept (image.performAll actions) ∧
      ∀ native ∈ (session.performAll actions).natives,
        native.BlindBut kept := by
  induction actions generalizing session image with
  | nil => exact ⟨counterpart, blind⟩
  | cons action rest inductionHypothesis =>
      obtain ⟨-, after⟩ := counterpart.perform blind action
      have blindRest :=
        blind_perform blind (blindActions action List.mem_cons_self)
      exact inductionHypothesis after blindRest fun other member =>
        blindActions other (List.mem_cons_of_mem _ member)

/-- Counterparts may both hand out other identities, if these have not been
handed out. -/
theorem numberedFrom
    {next nextImage : NodeId}
    (counterpart : session.Counterpart 0 kept image)
    (above : session.machine.nextNode ≤ next)
    (aboveImage : image.machine.nextNode ≤ nextImage) :
    (session.numberedFrom next).Counterpart 0 kept
      (image.numberedFrom nextImage) := by
  have follow : Machine.Follow 0 kept session.machine image.machine
      { session.machine with nextNode := next }
      { image.machine with nextNode := nextImage } :=
    .ofTables counterpart.machine (.hand above) (.hand aboveImage)
  exact { counterpart with machine := follow.counterpart }

end Counterpart

/-- A run of a source that is rejected only hands out identities. -/
theorem run_of_rejected
    {source : ByteArray}
    {first : NodeId}
    {error : StaticError}
    (rejected : (Program.compile source first).1 = .error error)
    (session : Session)
    (stopping : Stopping)
    (steps : Nat) :
    ∃ next, session.machine.nextNode ≤ next ∧
      session.run stopping steps source =
        (.failed (.rejected error), session.numberedFrom next) := by
  have alike := Program.compile_alike source first session.machine.nextNode
  generalize Program.compile source first = outcome at rejected alike
  generalize outcomeHere : Program.compile source session.machine.nextNode =
    result at alike
  cases alike with
  | accepted => cases rejected
  | @rejected found distance =>
      cases rejected
      refine ⟨session.machine.nextNode + distance, Nat.le_add_right _ _, ?_⟩
      unfold run Machine.compile
      rw [outcomeHere]
      rfl

/-- A run of a source that is rejected leaves no trace.  Wherever it is inserted
among the actions of a host, it ends with the rejection and only takes
identities; at all other actions the host cannot tell the two sessions from each
other.  Nor can it tell from each other sessions that go on with different
identities. -/
theorem rejected_runs_are_invisible
    {source : ByteArray}
    {first : NodeId}
    {error : StaticError}
    {before after : List HostAction}
    (lives : session.Lives offered)
    (blind :
      ∀ native ∈ session.natives, native.BlindBut session.machine.Numbered)
    (blindActions :
      ∀ action ∈ before ++ after, action.BlindBut session.machine.Numbered)
    (rejected : (Program.compile source first).1 = .error error) :
    (∀ stopping steps,
      ∃ earlier later next others,
        session.history (before ++ after) = earlier ++ later ∧
        session.history (before ++ .run stopping steps source :: after) =
          earlier ++ ⟨some (.failed (.rejected error)),
            (session.performAll before).numberedFrom next⟩ :: others ∧
        earlier.length = before.length ∧
        List.Forall₂ Moment.Indistinct later others) ∧
      ∀ next other, session.machine.nextNode ≤ next →
        session.machine.nextNode ≤ other →
        List.Forall₂ Moment.Indistinct
          ((session.numberedFrom next).history (before ++ after))
          ((session.numberedFrom other).history (before ++ after)) := by
  have itself : session.Counterpart 0 session.machine.Numbered session :=
    .ofMachine (lives.sound.machine.counterpart_self 0)
  constructor
  · intro stopping steps
    obtain ⟨here, blindHere⟩ := itself.performAll blind fun action member =>
      blindActions action (List.mem_append_left _ member)
    obtain ⟨next, above, runs⟩ :=
      run_of_rejected rejected (session.performAll before) stopping steps
    refine ⟨session.history before, (session.performAll before).history after,
      next, ((session.performAll before).numberedFrom next).history after,
      history_append session before after, ?_,
        length_history session before, ?_⟩
    · simp only [history_append, history, outcome?, perform, runs]
    · exact Counterpart.history (here.numberedFrom (Nat.le_refl _) above)
        blindHere
        fun action member =>
          blindActions action (List.mem_append_right _ member)
  · intro next other above aboveOther
    exact Counterpart.history (itself.numberedFrom above aboveOther)
      blind blindActions

/-- A source that declares a function. -/
def declaring : ByteArray :=
  "fun f() \x7b f; \x7d".toUTF8

/-- A source that calls that function. -/
def calling : ByteArray :=
  "f();".toUTF8

/-- A source that is rejected after nodes of it got their identities. -/
def misplaced : ByteArray :=
  "x; this;".toUTF8

/-- Between a declaration and a call, a source that is rejected leaves no
trace. -/
theorem rejected_runs_are_invisible_before_call :
    ∃ earlier later next others,
      equipped.history
        [.run .unheeding 9 declaring, .run .unheeding 9 calling] =
        earlier ++ later ∧
      equipped.history
          [.run .unheeding 9 declaring, .run .unheeding 9 misplaced,
            .run .unheeding 9 calling] =
        earlier ++ ⟨some
          (.failed (.rejected (.scope ⟨.thisOutsideClass, "this", 1⟩))),
          (equipped.performAll [.run .unheeding 9 declaring]).numberedFrom
            next⟩ :: others ∧
      earlier.length = 1 ∧
      List.Forall₂ Moment.Indistinct later others := by
  have rejected : (Program.compile misplaced 0).1 =
      .error (.scope ⟨.thisOutsideClass, "this", 1⟩) := by
    cbv
  have blindActions :
      ∀ action ∈ [HostAction.run .unheeding 9 declaring] ++
        [.run .unheeding 9 calling],
        action.BlindBut equipped.machine.Numbered := by
    simp [HostAction.BlindBut]
  exact (rejected_runs_are_invisible lives_equipped
    (blindBut_equipped _) blindActions rejected).1 .unheeding 9

end Session

end LoxScript
