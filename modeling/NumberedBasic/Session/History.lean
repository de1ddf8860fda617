import NumberedBasic.Program.History
import NumberedBasic.Session

/-!
# Histories of a session

The calls that a terminal makes on a session, in any order, and the sessions that they can lead to.
Which programs may be installed is a parameter.
-/

namespace NumberedBasic

namespace Session

inductive Call where
  | enter (text : String)
  | execute (cycles : Nat)
  | interrupt
  | install (program : Program)
deriving DecidableEq, Repr

/-- Makes a call. Only execution has an event. -/
def reply (session : Session) : Call → Option Event × Session
  | .enter text => (none, session.enter text)
  | .execute cycles =>
      let result := session.execute cycles
      (some result.1, result.2)
  | .interrupt => (none, session.interrupt)
  | .install program => (none, session.install program)

/-- Makes calls in order, with all the events. -/
def replies (session : Session) : List Call → List Event × Session
  | [] => ([], session)
  | call :: rest =>
      let first := session.reply call
      let later := first.2.replies rest
      (first.1.toList ++ later.1, later.2)

def Call.Installs (allowed : Program → Prop) : Call → Prop
  | install program => allowed program
  | enter _ | execute _ | interrupt => True

inductive Reachable (allowed : Program → Prop) : Session → Prop where
  | initial : Reachable allowed {}
  | call {session : Session} (call : Call) :
      call.Installs allowed → Reachable allowed session →
      Reachable allowed (session.reply call).2

theorem replies_append (session : Session) (earlier later : List Call) :
    session.replies (earlier ++ later) =
      ((session.replies earlier).1 ++ ((session.replies earlier).2.replies later).1,
        ((session.replies earlier).2.replies later).2) := by
  induction earlier generalizing session with
  | nil => rfl
  | cons call rest ih =>
      rw [List.cons_append, replies, replies, ih, List.append_assoc]

theorem Reachable.replies {allowed : Program → Prop} {session : Session}
    (h : Reachable allowed session) {calls : List Call}
    (hcalls : ∀ call ∈ calls, call.Installs allowed) :
    Reachable allowed (session.replies calls).2 := by
  induction calls generalizing session with
  | nil => exact h
  | cons call rest ih =>
      obtain ⟨hcall, hrest⟩ := List.forall_mem_cons.mp hcalls
      exact ih (h.call call hcall) hrest

end Session

end NumberedBasic
