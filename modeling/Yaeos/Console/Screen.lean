import Yaeos.Console.Run
import Yaeos.Video.Lines

/-!
# The screen among the consoles (`modules/i686/video.c`)

What the screen shows at the end of a run of messages: all of them as on a terminal, whatever
the other consoles do.
-/

namespace Yaeos

/-- The operations of `video_console`; the rounds are enough for every message. -/
def videoConsole : ConsoleOps VideoState where
  write := some fun msg len state => videoWrite (2 * len + 2) msg len state
  clear := some fun state => .ok (videoClear state)

namespace ConsoleCall

variable {Id : Type} {call : ConsoleCall Id} {state : VideoState}

/-- What a message makes of a terminal. -/
def shownOn (color : Nat) (screen : Terminal videoHeight videoWidth Nat) :
    ConsoleCall Id → Terminal videoHeight videoWidth Nat
  | register _ => screen
  | clear => screen.clear (VideoState.charset color).blank
  | write msg len => (msg.take len).foldl (Terminal.feed (VideoState.charset color)) screen

/-- What is written is a string or a beginning of one. -/
def OfString : ConsoleCall Id → Prop
  | write msg len => ∃ s : CString, msg = s.stored ∧ len ≤ s.bytes.length
  | _ => True

/-- The screen takes every message. -/
theorem deliver_videoConsole (ofString : call.OfString) (inside : state.terminal.Inside) :
    ∃ after, call.deliver videoConsole state = .ok after ∧ after.terminal.Inside ∧
      state.Shows after (call.shownOn state.color state.terminal) := by
  cases call with
  | register c => exact ⟨state, rfl, inside, rfl, rfl, .refl state⟩
  | clear =>
      have shows := VideoState.shows_videoClear state
      refine ⟨videoClear state, rfl, ?_, shows⟩
      rw [shows.terminal]
      exact inside.clear _
  | write msg len =>
      obtain ⟨s, rfl, short⟩ := ofString
      refine videoWrite_string s inside short ?_
      rw [roundsLeft]
      split <;> omega

end ConsoleCall

/-- The data of consoles of which the screen is one. -/
abbrev WithScreen {Name : Type} (Data : Name → Type) : Option Name → Type
  | none => VideoState
  | some c => Data c

namespace Consoles

variable {Name : Type} [DecidableEq Name] {Data : Name → Type}
  {ops : ∀ c, ConsoleOps (WithScreen Data c)}
  {start consoles final : Consoles (Option Name) (WithScreen Data)}
  {earlier calls : List (ConsoleCall (Option Name))} {registered : List (Option Name)}

theorem trace_execute (rounds : Nat)
    (executed : Machine.execute (fun _ _ => True)
      (fun consoles action => consoles.call ops rounds action) calls consoles = some final) :
    (consoleMachine ops).Trace consoles calls final := by
  refine Machine.Trace.execute ?_ executed
  intro state action next _ called
  exact ⟨rounds, called⟩

/-- In a run from a state in which the screen is registered it shows all that was written. -/
theorem Holds.screen (screen : ops none = videoConsole) (holds : consoles.Holds registered)
    (known : none ∈ registered) (inside : (consoles.data none).terminal.Inside)
    (run : (consoleMachine ops).Trace consoles calls final)
    (strings : ∀ call ∈ calls, call.OfString) :
    (∃ later, final.Holds (later ++ registered)) ∧ (final.data none).terminal.Inside ∧
      (consoles.data none).Shows (final.data none)
        (calls.foldl (ConsoleCall.shownOn (consoles.data none).color)
          (consoles.data none).terminal) := by
  induction run with
  | nil => exact ⟨⟨[], holds⟩, inside, rfl, rfl, .refl _⟩
  | snoc _ stepped inductionHypothesis =>
      obtain ⟨before, last⟩ := List.forall_mem_append.mp strings
      obtain ⟨⟨later, holdsNow⟩, insideNow, shown⟩ := inductionHypothesis before
      have ofString := last _ (List.mem_singleton_self _)
      have delivered := holdsNow.delivers stepped (List.mem_append_right _ known)
      rw [screen] at delivered
      obtain ⟨after, taken, afterInside, shows⟩ :=
        ConsoleCall.deliver_videoConsole ofString insideNow
      cases taken.symm.trans delivered
      have grown := holdsNow.step stepped
      rw [← List.append_assoc] at grown
      rw [shown.color, shown.terminal] at shows
      rw [List.foldl_append, List.foldl_cons, List.foldl_nil]
      exact ⟨⟨_, grown⟩, afterInside, shown.trans shows⟩

/-- The screen, and a console that keeps what it is told. -/
def screenAndRecorder : ∀ c, ConsoleOps (WithScreen (fun _ : Unit => List Nat) c)
  | none => videoConsole
  | some _ => recorder true

def screenLoaded : Consoles (Option Unit) (WithScreen fun _ : Unit => List Nat) where
  links _ := none
  data
    | none => videoLoaded fun _ => 0
    | some _ => []

def screenRegistered : Consoles (Option Unit) (WithScreen fun _ : Unit => List Nat) :=
  { screenLoaded with links := screenLoaded.consolesInit.links.insert none (some none) }

end Consoles

end Yaeos
