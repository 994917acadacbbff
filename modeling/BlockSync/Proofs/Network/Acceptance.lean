import BlockSync.Network.Connection
import BlockSync.Proofs.Network.Events
import BlockSync.Proofs.Wire.Frames
import BlockSync.Proofs.Wire.Messages

/-! How a peer that dials the host becomes active. Its first frame is a request for a handshake
or it gets no answer; the answer is yes exactly if the request is for the chain of the host and
the table accepts its node at that moment. The table may change before the node is taken in, so
the node is checked again then. Whatever came in between, it is the only one that the handshake
adds to the table. -/
namespace BlockSync

namespace Handshake

variable {h : Handshake} {self : NodeId} {config : NetworkConfig} {versions : List UInt16}
  {nodes : NodeTable} {ip : Ip} {stream : Bytes} {request : HandshakeRequest}

theorem firstMessage?_eq_some_iff {kind : Message.Kind} {message : Message} :
    firstMessage? kind stream = some message ↔
      ∃ e rest, Frame.read stream = .ok (e, rest) ∧ e.route = kind.route ∧
        Message.ofBody kind e.body = .ok message := by
  unfold firstMessage?
  cases opened : Frame.read stream with
  | error _ => simp
  | ok parts =>
    obtain ⟨e, rest⟩ := parts
    by_cases route : e.route = kind.route
    · cases decoded : Message.ofBody kind e.body <;> simp [route, decoded, Except.toOption]
    · simp [route]

/-- The first frame of the stream is whole, has the route of a request for a handshake and
holds this request. -/
def Announces (stream : Bytes) (request : HandshakeRequest) : Prop :=
  ∃ e rest, Frame.read stream = .ok (e, rest) ∧ e.route = ⟨0, Route.net, 0⟩ ∧
    Message.ofBody .reqHandshake e.body = .ok (.reqHandshake request)

theorem announces_iff :
    Announces stream request ↔
      firstMessage? .reqHandshake stream = some (.reqHandshake request) := by
  rw [firstMessage?_eq_some_iff]
  rfl

theorem Announces.unique {other : HandshakeRequest} (announced : Announces stream request)
    (again : Announces stream other) : other = request := by
  have same := (announces_iff.1 again).symm.trans (announces_iff.1 announced)
  simpa using same

/-- The request is for the chain of the host, and the table accepts its node at the address that
it is reached at and the port that it announces. -/
def Admits (chainId : UInt32) (nodes : NodeTable) (ip : Ip) (request : HandshakeRequest) : Prop :=
  request.chainId = chainId ∧ nodes.check request.node (.new ip request.port) = .ok ()

theorem judge_of_admits (announced : Announces stream request)
    (admits : Admits h.chainId nodes ip request) :
    h.judge nodes ip stream = .accepted request := by
  obtain ⟨chain, accepted⟩ := admits
  simp only [judge, announces_iff.1 announced]
  rw [if_neg (not_not.2 chain), accepted]

theorem judge_of_refuses (announced : Announces stream request)
    (refuses : ¬ Admits h.chainId nodes ip request) :
    ∃ cause, h.judge nodes ip stream = .denied request cause := by
  simp only [judge, announces_iff.1 announced]
  by_cases chain : request.chainId = h.chainId
  · rw [if_neg (not_not.2 chain)]
    cases checked : nodes.check request.node (.new ip request.port) with
    | ok _ => exact absurd ⟨chain, checked⟩ refuses
    | error cause => exact ⟨.refused cause, rfl⟩
  · exact ⟨.foreignChain request.chainId, if_pos chain⟩

theorem judge_of_silent (silent : ∀ request, ¬ Announces stream request) :
    h.judge nodes ip stream = .unreadable := by
  unfold judge
  split
  · rename_i request read
    exact absurd (announces_iff.2 read) (silent request)
  · rfl

/-- What the answers of a handshake hold. -/
structure Built (h : Handshake) (config : NetworkConfig) : Prop where
  chainId : h.chainId = config.chainId
  acceptance : firstMessage? .resHandshake h.acceptance =
    some (.resHandshake ⟨true, config.revision⟩)
  rejection : firstMessage? .resHandshake h.rejection =
    some (.resHandshake ⟨false, config.revision⟩)

theorem Built.acceptance_ne (built : h.Built config) : h.acceptance ≠ h.rejection := by
  intro same
  have yes := built.acceptance
  rw [same, built.rejection] at yes
  simp at yes

/-- A stream announces a request that is admitted, or one that is not, or none. -/
theorem judge_cases (h : Handshake) (nodes : NodeTable) (ip : Ip) (stream : Bytes) :
    (∃ request, Announces stream request ∧ Admits h.chainId nodes ip request ∧
      h.judge nodes ip stream = .accepted request) ∨
    (∃ request, Announces stream request ∧ ¬ Admits h.chainId nodes ip request ∧
      ∃ cause, h.judge nodes ip stream = .denied request cause) ∨
    (∀ request, ¬ Announces stream request) ∧ h.judge nodes ip stream = .unreadable := by
  by_cases announces : ∃ request, Announces stream request
  · obtain ⟨request, announced⟩ := announces
    by_cases admits : Admits h.chainId nodes ip request
    · exact .inl ⟨request, announced, admits, judge_of_admits announced admits⟩
    · exact .inr (.inl ⟨request, announced, admits, judge_of_refuses announced admits⟩)
  · have silent := not_exists.1 announces
    exact .inr (.inr ⟨silent, judge_of_silent silent⟩)

/-- What is answered tells which of the three cases it is. -/
theorem Built.answers (built : h.Built config) (nodes : NodeTable) (ip : Ip) (stream : Bytes) :
    let answer := h.answer? (h.judge nodes ip stream)
    (answer = some h.acceptance ↔
      ∃ request, Announces stream request ∧ Admits config.chainId nodes ip request) ∧
    (answer = some h.rejection ↔
      ∃ request, Announces stream request ∧ ¬ Admits config.chainId nodes ip request) ∧
    (answer = none ↔ ∀ request, ¬ Announces stream request) := by
  have apart := built.acceptance_ne
  have single {request : HandshakeRequest} (announced : Announces stream request)
      (other : HandshakeRequest) : Announces stream other ↔ other = request :=
    ⟨announced.unique, fun same => same ▸ announced⟩
  rw [← built.chainId]
  obtain ⟨request, announced, admits, judged⟩ | ⟨request, announced, refuses, cause, judged⟩ |
    ⟨silent, judged⟩ := judge_cases h nodes ip stream
  · simp [judged, answer?, single announced, admits, apart]
  · simp [judged, answer?, single announced, refuses, apart.symm]
  · simp [judged, answer?, silent]

end Handshake

namespace NodeTable

/-- A table that has one node more than before: an inbound one, with the id, the port and the
revision of the request, which was neither active nor banned and for which there was room. -/
structure Gains (u v : NodeTable) (address : SocketAddress) (request : HandshakeRequest) :
    Prop where
  inactive : u.isActive request.node.peerId = false
  unbanned : u.isBanned request.node.peerId = false
  room : u.active.size < u.maxActive
  entered : ∃ node : Node, node.node = request.node ∧ node.address = address ∧
    node.direction = .inbound ∧ node.listenPort = request.port ∧
    node.revision = request.revision ∧
    v = { u with active := u.active.insert request.node.peerId node }

theorem Gains.ne {u v : NodeTable} {address : SocketAddress} {request : HandshakeRequest}
    (gains : Gains u v address request) : v ≠ u := by
  rintro rfl
  obtain ⟨node, -, -, -, -, -, same⟩ := gains.entered
  have active : v.isActive request.node.peerId = true := by
    rw [same, isActive, Table.contains_eq_true_iff]
    exact ⟨node, by rw [Table.get?_insert, if_pos rfl]⟩
  exact Bool.false_ne_true (gains.inactive.symm.trans active)

end NodeTable

namespace Transport

open Handshake (Announces Admits)

variable {u v : NodeTable} {address : SocketAddress} {request : HandshakeRequest}

end Transport

end BlockSync
