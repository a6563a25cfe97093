import OpenDal.Services.Memcached

/-!
# Sessions on one connection

Operations run one after the other on one connection, and the server answers
each of them with one frame.  The connection may be lost: then only a part of
the current answer arrives, and nothing after it.

An operation is in step when it has taken exactly its own frame from the
stream and returned what it returns on a new connection with that frame.
-/

namespace OpenDal.Memcached

inductive Operation where
  | auth (username password : List UInt8)
  | version
  | get (key : List UInt8)
  | set (key val : List UInt8) (expiration : UInt32)
  | delete (key : List UInt8)
deriving DecidableEq, Repr

inductive Outcome where
  | version (text : String)
  | value (found : Option (List UInt8))
  | done
deriving DecidableEq, Repr

def Operation.run : Operation → Io Outcome
  | .auth username password => do
      Connection.auth username password
      pure .done
  | .version => do
      let text ← Connection.version
      pure (.version text)
  | .get key => do
      let found ← Connection.get key
      pure (.value found)
  | .set key val expiration => do
      Connection.set key val expiration
      pure .done
  | .delete key => do
      Connection.delete key
      pure .done

/-- The stream when the request has been sent and the answer is there. -/
def sent (s : TcpStream) (request : List UInt8) : TcpStream where
  incoming := s.incoming ++ s.answers.headD []
  outgoing := s.outgoing ++ request
  answers := s.answers.tail

/-- The program sends the request, parses the response and goes on with
it. -/
def Requests {α : Type} (program : Io α) (request : List UInt8)
    (next : Response → Io α) : Prop :=
  ∀ s, program s = (parseResponse >>= next) (sent s request)

theorem requests_flush {α : Type} (next : Response → Io α) :
    Requests (ByteStream.flush >>= fun _ => parseResponse >>= next) []
      next := by
  intro s
  rw [sent, List.append_nil]
  rfl

theorem sent_append (s : TcpStream) (front request : List UInt8) :
    sent s (front ++ request) =
      sent { s with outgoing := s.outgoing ++ front } request := by
  rw [sent, sent, List.append_assoc]

theorem Requests.write {α : Type} {program : Io α} {request : List UInt8}
    {next : Response → Io α} (bytes : List UInt8)
    (requests : Requests program request next) :
    Requests (ByteStream.write bytes >>= fun _ => program)
      (bytes ++ request) next := by
  intro s
  rw [sent_append]
  exact requests _

theorem Requests.header {α : Type} {program : Io α} {request : List UInt8}
    {next : Response → Io α} (h : PacketHeader)
    (requests : Requests program request next) :
    Requests (h.write >>= fun _ => program) (h.bytes ++ request) next := by
  intro s
  rw [sent_append, ByteStream.bind_ok (h.write_eq s)]
  exact requests _

/-- The program sends a request, parses the response and is done with the
stream. -/
def Converses {α : Type} (program : Io α) : Prop :=
  ∃ (request : List UInt8) (conclude : Response → Except Failure α),
    ∀ s, program s = ((parseResponse (sent s request)).1.bind conclude,
      (parseResponse (sent s request)).2)

theorem Requests.converses {α : Type} {program : Io α}
    {request : List UInt8} {next : Response → Io α}
    (requests : Requests program request next)
    (concludes : ∀ response, ∃ conclusion, ∀ s,
      next response s = (conclusion, s)) :
    Converses program := by
  refine ⟨request, fun response => (next response ⟨[], [], []⟩).1, ?_⟩
  intro s
  rw [requests]
  cases parsed : parseResponse (sent s request) with
  | mk reply later =>
      cases reply with
      | error err => exact ByteStream.bind_error parsed
      | ok response =>
          obtain ⟨conclusion, concluded⟩ := concludes response
          rw [ByteStream.bind_ok parsed, concluded]
          simp only [Except.bind, concluded]

theorem Converses.map {α β : Type} {program : Io α}
    (converses : Converses program) (f : α → β) :
    Converses (program >>= fun value => pure (f value)) := by
  obtain ⟨request, conclude, ran⟩ := converses
  refine ⟨request, fun response => (conclude response).map f, ?_⟩
  intro s
  have first := ran s
  cases reply : (parseResponse (sent s request)).1 with
  | error err =>
      rw [reply] at first
      exact ByteStream.bind_error first
  | ok response =>
      rw [reply] at first
      show _ = ((conclude response).map f, _)
      cases concluded : conclude response with
      | error err =>
          exact ByteStream.bind_error (first.trans (by
            rw [Except.bind, concluded]))
      | ok value =>
          exact ByteStream.bind_ok (first.trans (by
            rw [Except.bind, concluded]))

namespace Connection

theorem converses_auth (username password : List UInt8) :
    Converses (auth username password) := by
  have requests := (((requests_flush fun _ => pure ()).write
    ([0] ++ username ++ [0] ++ password)).write "PLAIN".toUTF8.toList).header
  apply (requests _).converses
  intro _
  exact ⟨_, fun _ => rfl⟩

theorem converses_version : Converses version := by
  apply ((requests_flush _).header _).converses
  intro response
  cases String.fromUTF8? ⟨response.value.toArray⟩ with
  | some text => exact ⟨_, fun _ => rfl⟩
  | none => exact ⟨_, fun _ => rfl⟩

theorem converses_get (key : List UInt8) : Converses (get key) := by
  apply (((requests_flush _).write key).header _).converses
  intro response
  split
  · exact ⟨_, fun _ => rfl⟩
  · exact ⟨_, fun _ => rfl⟩

theorem converses_set (key val : List UInt8) (expiration : UInt32) :
    Converses (set key val expiration) := by
  apply ((((((requests_flush _).write val).write key).write _).write
    _).header _).converses
  intro _
  exact ⟨_, fun _ => rfl⟩

theorem converses_delete (key : List UInt8) : Converses (delete key) := by
  apply (((requests_flush _).write key).header _).converses
  intro _
  exact ⟨_, fun _ => rfl⟩

end Connection

theorem Operation.converses (operation : Operation) :
    Converses operation.run := by
  cases operation with
  | auth username password =>
      exact (Connection.converses_auth username password).map _
  | version => exact Connection.converses_version.map _
  | get key => exact (Connection.converses_get key).map _
  | set key val expiration =>
      exact (Connection.converses_set key val expiration).map _
  | delete key => exact (Connection.converses_delete key).map _

/-! ## Sessions -/

/-- An operation, the frame the server answers it with and what arrives of
that frame. -/
structure Exchange where
  operation : Operation
  frame : Frame
  arrived : List UInt8

/-- The answers arrive, up to the one in which the connection is lost. -/
def Arrive : List Exchange → Prop
  | [] => True
  | exchange :: exchanges =>
      (exchange.arrived = exchange.frame.bytes ∧ Arrive exchanges) ∨
      (exchange.arrived <+: exchange.frame.bytes ∧
        ∀ later ∈ exchanges, later.arrived = [])

/-- A new connection to a server that will give these answers. -/
def connect (exchanges : List Exchange) : TcpStream :=
  ⟨[], [], exchanges.map Exchange.arrived⟩

namespace Exchange

def result (exchange : Exchange) (s : TcpStream) : Except Failure Outcome :=
  (exchange.operation.run s).1

def after (exchange : Exchange) (s : TcpStream) : TcpStream :=
  (exchange.operation.run s).2

/-- The exchange when it is the only one and its frame arrives. -/
def alone (exchange : Exchange) : Except Failure Outcome :=
  exchange.result ⟨[], [], [exchange.frame.bytes]⟩

/-- The operation takes its own frame from the stream and returns what the
frame says. -/
structure InStep (exchange : Exchange) (s : TcpStream) : Prop where
  consumes : s.incoming ++ exchange.arrived =
    exchange.frame.bytes ++ (exchange.after s).incoming
  length : s.incoming.length + exchange.arrived.length =
    24 + exchange.frame.header.totalBodyLength.toNat +
      (exchange.after s).incoming.length
  outcome : exchange.result s = exchange.alone

/-- If the header arrives, its status is known or there is no body. -/
def Readable (exchange : Exchange) : Prop :=
  24 ≤ exchange.arrived.length →
    exchange.frame.header.Known ∨ exchange.frame.body = []

end Exchange

/-- Every operation that does not end with an I/O error is in step. -/
def InStepFrom (s : TcpStream) (exchanges : List Exchange) : Prop :=
  ∀ earlier exchange later, exchanges = earlier ++ exchange :: later →
    let s := earlier.foldl (fun s exchange => exchange.after s) s
    (∀ err, exchange.result s ≠ .error (.io err)) → exchange.InStep s

def StaysInStep (exchanges : List Exchange) : Prop :=
  InStepFrom (connect exchanges) exchanges

theorem inStepFrom_cons_iff {s : TcpStream} {exchange : Exchange}
    {exchanges : List Exchange} :
    InStepFrom s (exchange :: exchanges) ↔
      ((∀ err, exchange.result s ≠ .error (.io err)) → exchange.InStep s) ∧
        InStepFrom (exchange.after s) exchanges := by
  constructor
  · intro inStep
    refine ⟨inStep [] exchange exchanges rfl, ?_⟩
    intro earlier current later split
    exact inStep (exchange :: earlier) current later (by rw [split]; rfl)
  · intro inStep earlier current later split
    cases earlier with
    | nil =>
        cases split
        exact inStep.1
    | cons first earlier =>
        cases split
        exact inStep.2 earlier current later rfl

theorem Arrive.head {exchange : Exchange} {exchanges : List Exchange}
    (arrive : Arrive (exchange :: exchanges)) :
    exchange.arrived <+: exchange.frame.bytes := by
  rcases arrive with whole | lost
  · exact ⟨[], by rw [List.append_nil, whole.1]⟩
  · exact lost.1

theorem Arrive.tail {exchange : Exchange} {exchanges : List Exchange}
    (arrive : Arrive (exchange :: exchanges)) : Arrive exchanges := by
  rcases arrive with whole | lost
  · exact whole.2
  · cases exchanges with
    | nil => trivial
    | cons next exchanges =>
        refine .inr ⟨?_, ?_⟩
        · rw [lost.2 next List.mem_cons_self]
          exact List.nil_prefix
        · intro later member
          exact lost.2 later (List.mem_cons_of_mem _ member)

/-! ## One exchange -/

theorem split_arrived {f : Frame} {arrived : List UInt8}
    (part : arrived <+: f.bytes) (header : 24 ≤ arrived.length) :
    ∃ body, arrived = f.header.bytes ++ body ∧ body <+: f.body := by
  obtain ⟨body, rfl⟩ := List.prefix_of_prefix_length_le
    (List.prefix_append f.header.bytes f.body) part (by simpa using header)
  exact ⟨body, rfl, (List.prefix_append_right_inj _).mp part⟩

theorem parseResponse_whole {f : Frame}
    (readable : f.header.Known ∨ f.body = []) :
    ∃ reply, ∀ s, s.incoming = f.bytes →
      parseResponse s = (reply, { s with incoming := [] }) := by
  by_cases known : f.header.Known
  · obtain ⟨decode, reads⟩ := f.reads_body
    refine ⟨.ok (decode f.body), ?_⟩
    intro s incoming
    rw [parseResponse_known known incoming]
    exact reads.enough _ f.body [] f.size (List.append_nil _).symm
  · have empty := readable.resolve_left known
    refine ⟨.error (unexpectedStatus f.header.vbucketIdOrStatus), ?_⟩
    intro s incoming
    rw [Frame.bytes, empty] at incoming
    exact parseResponse_unknown known incoming

theorem parseResponse_cut {f : Frame} {s : TcpStream}
    (part : s.incoming <+: f.bytes) (cut : s.incoming ≠ f.bytes)
    (readable : 24 ≤ s.incoming.length → f.header.Known ∨ f.body = []) :
    parseResponse s = (.error eof, { s with incoming := [] }) := by
  by_cases header : 24 ≤ s.incoming.length
  · obtain ⟨body, incoming, within⟩ := split_arrived part header
    have shorter : body.length < f.body.length := by
      apply Nat.lt_of_le_of_ne within.length_le
      intro same
      apply cut
      rw [incoming, within.eq_of_length same, Frame.bytes]
    have known : f.header.Known := by
      rcases readable header with known | empty
      · exact known
      · simp [empty] at shorter
    obtain ⟨decode, reads⟩ := f.reads_body
    rw [parseResponse_known known incoming]
    apply reads.short
    rw [← f.size]
    exact shorter
  · exact parseResponse_short (Nat.lt_of_not_le header)

namespace Exchange

/-- The connection is where the exchange begins. -/
structure Aligned (exchange : Exchange) (s : TcpStream) : Prop where
  incoming : s.incoming = []
  answer : s.answers.headD [] = exchange.arrived

variable {exchange : Exchange} {s : TcpStream}

theorem Aligned.sent (aligned : exchange.Aligned s)
    (request : List UInt8) :
    (sent s request).incoming = exchange.arrived := by
  rw [Memcached.sent, aligned.incoming, aligned.answer, List.nil_append]

theorem aligned_alone (exchange : Exchange) :
    Aligned { exchange with arrived := exchange.frame.bytes }
      ⟨[], [], [exchange.frame.bytes]⟩ := by
  constructor
  · rfl
  · rfl

theorem after_readable (aligned : exchange.Aligned s)
    (part : exchange.arrived <+: exchange.frame.bytes)
    (readable : exchange.Readable) :
    (exchange.after s).incoming = [] ∧
      (exchange.after s).answers = s.answers.tail ∧
      ((∃ err, exchange.result s = .error (.io err)) ∨
        (exchange.arrived = exchange.frame.bytes ∧
          exchange.result s = exchange.alone)) := by
  obtain ⟨request, conclude, ran⟩ := exchange.operation.converses
  have incoming := aligned.sent request
  by_cases whole : exchange.arrived = exchange.frame.bytes
  · obtain ⟨reply, parsed⟩ := parseResponse_whole
      (readable (by simp [whole, Frame.length_bytes]))
    have here := ran s
    have there := ran ⟨[], [], [exchange.frame.bytes]⟩
    rw [parsed _ (incoming.trans whole)] at here
    rw [parsed _ ((aligned_alone exchange).sent request)] at there
    refine ⟨?_, ?_, .inr ⟨whole, ?_⟩⟩
    · rw [after, here]
    · rw [after, here]
      rfl
    · rw [alone, result, result, here, there]
  · have parsed := parseResponse_cut (incoming ▸ part) (incoming ▸ whole)
      (incoming ▸ readable)
    have here := ran s
    rw [parsed] at here
    refine ⟨?_, ?_, .inl ?_⟩
    · rw [after, here]
    · rw [after, here]
      rfl
    · rw [result, here]
      exact ⟨_, rfl⟩

theorem inStep_of_readable (aligned : exchange.Aligned s)
    (part : exchange.arrived <+: exchange.frame.bytes)
    (readable : exchange.Readable)
    (answered : ∀ err, exchange.result s ≠ .error (.io err)) :
    exchange.InStep s := by
  obtain ⟨empty, -, lost | ⟨whole, outcome⟩⟩ :=
    after_readable aligned part readable
  · obtain ⟨err, failed⟩ := lost
    exact absurd failed (answered err)
  · constructor
    · rw [aligned.incoming, whole, empty, List.append_nil, List.nil_append]
    · rw [aligned.incoming, whole, empty, Frame.length_bytes,
        List.length_nil]
      omega
    · exact outcome

/-- An answer that is not readable is no I/O error, and its body stays. -/
theorem not_inStep (aligned : exchange.Aligned s)
    (part : exchange.arrived <+: exchange.frame.bytes)
    (unreadable : ¬ exchange.Readable) :
    (∀ err, exchange.result s ≠ .error (.io err)) ∧
      ¬ exchange.InStep s := by
  obtain ⟨header, unknown, body⟩ :
      24 ≤ exchange.arrived.length ∧ ¬ exchange.frame.header.Known ∧
        exchange.frame.body ≠ [] := by
    simpa [Readable] using unreadable
  obtain ⟨request, conclude, ran⟩ := exchange.operation.converses
  obtain ⟨rest, arrived, within⟩ := split_arrived part header
  have here := ran s
  rw [parseResponse_unknown unknown ((aligned.sent request).trans arrived)]
    at here
  have left : (exchange.after s).incoming = rest := by
    rw [after, here]
  constructor
  · intro err failed
    rw [result, here] at failed
    cases failed
  · intro inStep
    have taken := inStep.consumes
    rw [aligned.incoming, left, arrived, List.nil_append, Frame.bytes,
      List.append_assoc] at taken
    have same := List.append_cancel_left taken
    have shorter := within.length_le
    have sizes := congrArg List.length same
    rw [List.length_append] at sizes
    have nonempty := List.length_pos_iff.mpr body
    omega

end Exchange

/-! ## A session -/

theorem inStepFrom_iff {s : TcpStream} {exchanges : List Exchange}
    (incoming : s.incoming = [])
    (answers : s.answers = exchanges.map Exchange.arrived)
    (arrive : Arrive exchanges) :
    InStepFrom s exchanges ↔
      ∀ exchange ∈ exchanges, exchange.Readable := by
  induction exchanges generalizing s with
  | nil =>
      constructor
      · intro _ exchange member
        cases member
      · intro _ earlier exchange later split
        cases earlier <;> cases split
  | cons exchange exchanges induction =>
      have aligned : exchange.Aligned s := by
        constructor
        · exact incoming
        · rw [answers]
          rfl
      rw [inStepFrom_cons_iff, List.forall_mem_cons]
      by_cases readable : exchange.Readable
      · obtain ⟨empty, rest, -⟩ :=
          Exchange.after_readable aligned arrive.head readable
        rw [answers] at rest
        rw [induction empty rest arrive.tail]
        constructor
        · intro inStep
          exact ⟨readable, inStep.2⟩
        · intro all
          exact ⟨Exchange.inStep_of_readable aligned arrive.head readable,
            all.2⟩
      · obtain ⟨answered, outOfStep⟩ :=
          Exchange.not_inStep aligned arrive.head readable
        constructor
        · intro inStep
          exact absurd (inStep.1 answered) outOfStep
        · intro all
          exact absurd all.1 readable

/-- The operations on a connection stay in step exactly when no answer with
an unknown status has a body. -/
theorem stays_in_step_iff (exchanges : List Exchange)
    (arrive : Arrive exchanges) :
    StaysInStep exchanges ↔
      ∀ exchange ∈ exchanges, exchange.Readable :=
  inStepFrom_iff rfl rfl arrive

/-- The answer arrives whole. -/
def answered (operation : Operation) (frame : Frame) : Exchange :=
  ⟨operation, frame, frame.bytes⟩

/-- A value of one byte behind the flags. -/
def valueFrame : Frame where
  header := { magic := 0x81, extrasLength := 4, totalBodyLength := 5 }
  body := [0, 0, 0, 0, 120]
  size := rfl
  fits := by decide

/-- The key is not there, and the body says so. -/
def missingFrame : Frame where
  header := { magic := 0x81, vbucketIdOrStatus := 0x1, totalBodyLength := 1 }
  body := [78]
  size := rfl
  fits := by decide

/-- The server is out of memory, and the body says so. -/
def outOfMemoryFrame : Frame where
  header := { magic := 0x81, vbucketIdOrStatus := 0x82, totalBodyLength := 1 }
  body := [79]
  size := rfl
  fits := by decide

theorem stays_in_step_missing :
    StaysInStep [answered (.get [97]) missingFrame,
      answered (.get [98]) valueFrame] := by
  have arrive : Arrive [answered (.get [97]) missingFrame,
      answered (.get [98]) valueFrame] :=
    Or.inl ⟨rfl, Or.inl ⟨rfl, trivial⟩⟩
  apply (stays_in_step_iff _ arrive).mpr
  intro exchange member _
  simp only [List.mem_cons, List.not_mem_nil, or_false] at member
  rcases member with rfl | rfl
  · exact .inl (.inr rfl)
  · exact .inl (.inl rfl)

/-- The second `get` reads the header of its answer from the body of the
first one on, and returns an empty value that nobody has stored. -/
theorem stays_in_step_fails_outOfMemory :
    ¬ StaysInStep [answered (.set [97] [1] 0) outOfMemoryFrame,
      answered (.get [98]) valueFrame] := by
  intro inStep
  have second := inStep [answered (.set [97] [1] 0) outOfMemoryFrame]
    (answered (.get [98]) valueFrame) [] rfl
  have returned : (answered (.get [98]) valueFrame).result
      ((answered (.set [97] [1] 0) outOfMemoryFrame).after
        (connect [answered (.set [97] [1] 0) outOfMemoryFrame,
          answered (.get [98]) valueFrame])) =
      .ok (.value (some [])) := by
    decide
  have expected : (answered (.get [98]) valueFrame).alone =
      .ok (.value (some [120])) := by
    decide
  have same := (second (by
    intro err failed
    simp only [List.foldl_cons, List.foldl_nil] at failed
    rw [returned] at failed
    cases failed)).outcome
  simp only [List.foldl_cons, List.foldl_nil] at same
  rw [returned, expected] at same
  cases same

end OpenDal.Memcached
