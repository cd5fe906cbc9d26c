import LibWing.Osc.Builders

/-!
# OSC replies and events

What the console sends is told apart by the address and the types of the arguments.

* `parseParamReply` : the value of a parameter, in a reply or in an event;
* `classifyEvent` : an event, and `message_classifyEvent`, nothing of it is lost;
* `parseNodeAck` : the acknowledgement of a write to a node, which is never taken for a value.
-/

namespace LibWing

namespace Osc

/-! ### Values -/

/-- `ParamFacets`. -/
inductive ParamFacets where
  | stringOrEnum (display : String)
  | float (display : String) (raw value : F32)
  | int (display : String) (raw : F32) (value : Int32)
  | nativeFloat (value : F32)
  | nativeInt (value : Int32)
  deriving DecidableEq, Repr

/-- `ParamReply`. -/
structure ParamReply where
  /-- The parameter. -/
  path : String
  /-- Its value in the forms that were sent. -/
  facets : ParamFacets
  deriving DecidableEq, Repr

/-- The facets that some arguments carry. -/
def facetsOf : List OscArg → Option ParamFacets
  | [.str display] => some (.stringOrEnum display)
  | [.str display, .float raw, .float value] => some (.float display raw value)
  | [.str display, .float raw, .int value] => some (.int display raw value)
  | [.float value] => some (.nativeFloat value)
  | [.int value] => some (.nativeInt value)
  | _ => none

/-- `parse_param_reply`. -/
def parseParamReply (msg : OscMessage) : Except OscError ParamReply :=
  match facetsOf msg.args with
  | some facets => .ok ⟨msg.addr, facets⟩
  | none => .error (.malformed "unexpected parameter reply shape")

/-! ### Events -/

/-- `OscEvent`. -/
inductive OscEvent where
  | param (reply : ParamReply)
  | binary (data : List UInt8)
  | raw (msg : OscMessage)
  deriving DecidableEq, Repr

/-- `str::ends_with('*')`. -/
def endsWithStar (addr : String) : Bool := addr.toList.getLast? = some '*'

/-- `classify_event`. -/
def classifyEvent (msg : OscMessage) : OscEvent :=
  if msg.addr = "/" then
    match msg.args with
    | [.blob data] => .binary data
    | _ => .raw msg
  else if endsWithStar msg.addr then .raw msg
  else
    match parseParamReply msg with
    | .ok reply => .param reply
    | .error _ => .raw msg

/-- The arguments that carry some facets. -/
def ParamFacets.args : ParamFacets → List OscArg
  | stringOrEnum display => [.str display]
  | float display raw value => [.str display, .float raw, .float value]
  | int display raw value => [.str display, .float raw, .int value]
  | nativeFloat value => [.float value]
  | nativeInt value => [.int value]

/-- The message of an event. -/
def OscEvent.message : OscEvent → OscMessage
  | param reply => ⟨reply.path, reply.facets.args⟩
  | binary data => ⟨"/", [.blob data]⟩
  | raw msg => msg

theorem args_facetsOf {args : List OscArg} {facets : ParamFacets}
    (h : facetsOf args = some facets) :
    facets.args = args := by
  unfold facetsOf at h
  split at h <;> cases h <;> rfl

theorem facetsOf_args (facets : ParamFacets) : facetsOf facets.args = some facets := by
  cases facets <;> rfl

theorem parseParamReply_eq_ok {msg : OscMessage} {reply : ParamReply} :
    parseParamReply msg = .ok reply ↔ msg = ⟨reply.path, reply.facets.args⟩ := by
  constructor
  · intro h
    unfold parseParamReply at h
    cases hfacets : facetsOf msg.args with
    | none =>
      rw [hfacets] at h
      cases h
    | some facets =>
      rw [hfacets] at h
      cases h
      rw [args_facetsOf hfacets]
  · rintro rfl
    rw [parseParamReply, facetsOf_args]

/-- An event keeps its whole message, whatever it is taken for. -/
theorem message_classifyEvent (msg : OscMessage) : (classifyEvent msg).message = msg := by
  obtain ⟨addr, args⟩ := msg
  unfold classifyEvent
  split_ifs with hroot hstar
  · simp only at hroot ⊢
    subst hroot
    split <;> rfl
  · rfl
  · cases hparse : parseParamReply ⟨addr, args⟩ with
    | error e => rfl
    | ok reply => exact (parseParamReply_eq_ok.1 hparse).symm

/-! ### Acknowledgements -/

/-- `OscNodeError`. -/
inductive OscNodeError where
  | nodeNotFound
  | valueError
  | bufferOverflow
  | nodeIsNotPar
  | incompleteData
  | stackEmpty
  deriving DecidableEq, Repr

/-- `OscNodeError::parse`. -/
def OscNodeError.parse (s : String) : Option OscNodeError :=
  if s = "NODE NOT FOUND" then some nodeNotFound
  else if s = "VALUE ERROR" then some valueError
  else if s = "BUFFER OVERFLOW" then some bufferOverflow
  else if s = "NODE IS NOT PAR" then some nodeIsNotPar
  else if s = "INCOMPLETE DATA" then some incompleteData
  else if s = "STACK EMPTY" then some stackEmpty
  else none

/-- The errors of `parse_node_ack`. -/
inductive NodeAckError where
  | node (e : OscNodeError)
  | osc (e : OscError)
  deriving DecidableEq, Repr

/-- `parse_node_ack`. -/
def parseNodeAck (msg : OscMessage) : Except NodeAckError Unit :=
  if endsWithStar msg.addr then
    match msg.args with
    | [.str payload] =>
      if payload = "OK" then .ok ()
      else
        match OscNodeError.parse payload with
        | some e => .error (.node e)
        | none => .error (.osc (.malformed "unrecognized node ack payload"))
    | _ => .error (.osc (.malformed "node ack payload must be a single string"))
  else .error (.osc (.malformed "not a node-ack address (expected '/*' or '<node>*')"))

/-- A message is an acknowledgement, or says why the console refused a write. -/
def Acknowledges (msg : OscMessage) : Prop :=
  parseNodeAck msg = .ok () ∨ ∃ e, parseNodeAck msg = .error (.node e)

/-- An acknowledgement is no event of a parameter. -/
theorem classifyEvent_of_acknowledges {msg : OscMessage} (h : Acknowledges msg) :
    classifyEvent msg = .raw msg := by
  have hstar : endsWithStar msg.addr = true := by
    by_contra hno
    unfold Acknowledges parseNodeAck at h
    rw [if_neg hno] at h
    rcases h with h | ⟨e, h⟩ <;> cases h
  have hroot : msg.addr ≠ "/" := by
    intro heq
    rw [heq] at hstar
    exact absurd hstar (by decide)
  rw [classifyEvent, if_neg hroot, if_pos hstar]

end Osc

end LibWing
