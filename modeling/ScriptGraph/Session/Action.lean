import ScriptGraph.Session.Clipboard
import ScriptGraph.Session.Edit
import ScriptGraph.Session.Reload

/-!
All that can be done to a session, as data, so that histories of a session can be spoken of.
-/

set_option autoImplicit false
set_option relaxedAutoImplicit false

namespace ScriptGraph

inductive Action where
  | addNode (fullName : String) (position : Position)
  | addVariable (type name : String) (isPublic : Bool)
  | addAccess (access : Access) (variableUid : Uid) (position : Position)
  | removeNode (uid : Uid)
  | removeNodes (uids : List Uid)
  | moveNode (uid : Uid) (position : Position)
  | connectValue (source : Uid) (output : Nat) (target : Uid) (input : Nat)
  | disconnectValue (target : Uid) (input : Nat)
  | connectFlow (source : Uid) (port : Nat) (target : Uid)
  | disconnectFlow (source : Uid) (port : Nat)
  | setValue (uid : Uid) (index : Nat) (value : Value)
  | setOverload (uid : Uid) (fullName : String)
  | renameVariable (uid : Uid) (name : String)
  | renewName
  | setUpdateOrder (updateOrder : Int32)
  | saveRecord (record : Json)
  | removeRecord (uid : String)
  | paste (text : String) (anchor : Position)
  | reload
  | compile
  | tick
  | configure (settings : Settings)

inductive Refusal where
  | edit (error : EditError)
  | clipping (error : ClippingError)
  | compile (error : CompileError)
deriving DecidableEq

def Refusal.ofPaste : PasteError → Refusal
  | .edit error => .edit error
  | .clipping error => .clipping error

namespace Session

def settle {ε α : Type} (refuse : ε → Refusal) : Except ε α × Session → Except Refusal Unit × Session
  | (.ok _, s) => (.ok (), s)
  | (.error error, s) => (.error (refuse error), s)

/-- Does something to a session. -/
def perform (s : Session) : Action → Except Refusal Unit × Session
  | .addNode fullName position => settle .edit (s.addNode fullName position)
  | .addVariable type name isPublic => settle .edit (s.addVariable type name isPublic)
  | .addAccess access variableUid position => settle .edit (s.addAccess access variableUid position)
  | .removeNode uid => settle .edit (s.removeNode uid)
  | .removeNodes uids => settle .edit (s.removeNodes uids)
  | .moveNode uid position => settle .edit (s.moveNode uid position)
  | .connectValue source output target input =>
    settle .edit (s.connectValue source output target input)
  | .disconnectValue target input => settle .edit (s.disconnectValue target input)
  | .connectFlow source port target => settle .edit (s.connectFlow source port target)
  | .disconnectFlow source port => settle .edit (s.disconnectFlow source port)
  | .setValue uid index value => settle .edit (s.setValue uid index value)
  | .setOverload uid fullName => settle .edit (s.setOverload uid fullName)
  | .renameVariable uid name => settle .edit (s.renameVariable uid name)
  | .renewName => settle .edit s.renewName
  | .setUpdateOrder updateOrder => settle .edit (s.setUpdateOrder updateOrder)
  | .saveRecord record => settle .edit (s.saveRecord record)
  | .removeRecord uid => settle .edit (s.removeRecord uid)
  | .paste text anchor => settle .ofPaste (s.paste text anchor)
  | .reload => settle .edit s.reload
  | .compile => settle .compile s.compile
  | .tick =>
    match s.tick with
    | (some result, s) => settle .compile (result, s)
    | (none, s) => (.ok (), s)
  | .configure settings => (.ok (), { s with settings })

/-- The session after a history. -/
def after (s : Session) (actions : List Action) : Session :=
  actions.foldl (fun s action => (s.perform action).2) s

end Session

end ScriptGraph
