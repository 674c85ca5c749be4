import CounterMesh.Proofs.Store.Saved

/-!
# Histories of a store on any content

A run starts on no trees and stays within the range of the sequences. A history
starts on whatever a file holds, sound or not, and goes on when a sequence is
used up. A store may be closed and opened on the file that it has saved.
-/

namespace CounterMesh.Stage

/-- One event in the life of a store on any content. -/
inductive Happens : Stage → Event → Stage → Prop where
  | turn {stage stage' : Stage} {event : Event} (h : Turn stage event stage') :
      Happens stage event stage'
  | call {engine : Engine} {s : Session} (call : Call) :
      Happens (writing engine s) (.call call) (writing engine (call.finish s))

/-- What an event makes of a stage at which it can take place. -/
def play : Stage → Event → Option Stage
  | idle store, .openWriter =>
    (store.node.openWriter store.engine).toOption.map fun opened =>
      writing opened.2 ⟨store.node, opened.1⟩
  | idle store, .reopen opening =>
    (opening.start (.ofDatabase store.engine.committed)).toOption.map idle
  | writing engine s, .call call => some (writing engine (call.finish s))
  | writing engine s, .commit notify =>
    some (idle ⟨(s.node.commit engine s.writer notify).1, (s.node.commit engine s.writer notify).2⟩)
  | writing engine s, .drop => some (idle ⟨s.node, engine.drop s.writer.transaction⟩)
  | _, _ => none

/-- What events make of a stage one after another. -/
def playAll : (stage : Stage) → List Event → Option Stage
  | stage, [] => some stage
  | stage, event :: rest => (stage.play event).bind fun stage' => playAll stage' rest

theorem happens_of_play {stage stage' : Stage} {event : Event}
    (h : stage.play event = some stage') : Happens stage event stage' := by
  cases stage with
  | idle store =>
      cases event with
      | openWriter =>
          obtain ⟨⟨writer, engine⟩, hopen, rfl⟩ := Option.map_eq_some_iff.1 h
          exact .turn (.step (.openWriter (eq_ok_of_toOption hopen)))
      | reopen opening =>
          obtain ⟨store', hstart, rfl⟩ := Option.map_eq_some_iff.1 h
          exact .turn (.step (.reopen (eq_ok_of_toOption hstart)))
      | _ => cases h
  | writing engine s =>
      cases event with
      | call call =>
          cases h
          exact .call call
      | commit notify =>
          cases h
          exact .turn (.step (.commit notify))
      | drop =>
          cases h
          exact .turn (.step .drop)
      | _ => cases h

end CounterMesh.Stage
