import Dualnet.Schema.Steps

/-!
# The two ends of a link

A link becomes a connect connection on its dialer and a listen connection on its acceptor.
`link_ends_agree`: the two agree on all transport parameters and are complementary, and their
keys agree unless the link leaves the key to its nodes and the nodes have different ones.
-/

namespace Dualnet.Schema

open Library Text
open Config (Connection)

/-- The connection of a name in a configuration. -/
def connectionNamed (cn : Config.Node) (name : String) : Option Connection :=
  cn.connections.find? (·.name == name)

/-- The key a node falls back to. -/
def Network.nodePSK (n : Network) (v : String) : String :=
  if (n.node v).psk = "" then n.psk else (n.node v).psk

/-- Where names are distinct, a connection is found by its name. -/
theorem connectionNamed_of_mem {cn : Config.Node} {c : Connection}
    (hnodup : (cn.connections.map Connection.name).Nodup) (hc : c ∈ cn.connections) :
    connectionNamed cn c.name = some c := by
  rw [connectionNamed]
  cases hfound : cn.connections.find? (·.name == c.name) with
  | none =>
    rw [List.find?_eq_none] at hfound
    exact absurd (beq_self_eq_true c.name) (hfound c hc)
  | some d =>
    have hname : d.name = c.name := by simpa using List.find?_some hfound
    rw [List.inj_on_of_nodup_map hnodup (List.mem_of_find?_eq_some hfound) hc hname]

section Ends

variable {m : Network} {out : Configs} {l : Link} {v : String}

/-- An end of a link is found by the link's name in its node's configuration. -/
theorem Accepted.end_connection (h : Accepted m out) (hl : l ∈ m.links) {c : Connection}
    (hv : v = l.dialer ∨ v = l.acceptor) (hc : c ∈ m.linkConnections v l) :
    ∃ cn, out.lookup v = some cn ∧ cn.psk = m.nodePSK v ∧
      connectionNamed cn c.name = some c.defaults := by
  obtain ⟨nd, cn, hnd, hcn, hconfig, hdatapath⟩ := h.end_node hl hv
  have hmem : c.defaults ∈ cn.connections := by
    rw [hconfig.connections]
    exact List.mem_map_of_mem
      (List.mem_append_right _ (List.mem_flatMap.mpr ⟨l, hl, hc⟩))
  have hname : c.defaults.name = c.name := by rw [Connection.defaults_eq]
  refine ⟨cn, hcn, ?_, ?_⟩
  · rw [hconfig.psk, Network.nodePSK, Network.node, hnd]
    rfl
  · rw [← hname]
    exact connectionNamed_of_mem (Config.Node.connection_names hconfig.valid hdatapath).1 hmem

end Ends

/-- What the two ends of a link have in common, and how they complement each other. -/
structure EndsAgree (m : Network) (l : Link) (dc ac : Connection) : Prop where
  transport : dc.transport = ac.transport
  port : dc.port = ac.port
  cipher : dc.cipher = ac.cipher
  http : dc.http = ac.http
  types : dc.type = "connect" ∧ ac.type = "listen"
  directions : (dc.direction = "outgoing" ∧ ac.direction = "incoming") ∨
    (dc.direction = "incoming" ∧ ac.direction = "outgoing")
  ip : dc.ip = (m.node l.acceptor).ip

/-- The two connections of a link agree. -/
theorem endsAgree_link (m : Network) (l : Link) :
    EndsAgree m l (m.dialerConnection l).defaults (m.acceptorConnection l).defaults := by
  rw [Connection.defaults_eq, Connection.defaults_eq]
  refine ⟨rfl, rfl, rfl, rfl, ⟨rfl, rfl⟩, ?_, rfl⟩
  simp only [Network.dialerConnection, Network.acceptorConnection]
  split
  · exact .inl ⟨rfl, rfl⟩
  · exact .inr ⟨rfl, rfl⟩

/-- Both ends of a link of an accepted network agree on transport, port, cipher and http
options, have complementary types and directions, and the dialer dials the acceptor's address.
Their effective keys agree exactly when the link has a key of its own or its nodes' keys are
equal. -/
theorem link_ends_agree {n m : Network} {out : Configs} (hvalid : n.validate = .ok m)
    (hcompile : m.compile = .ok out) {l : Link} (hl : l ∈ m.links) :
    ∃ dn an dc ac, out.lookup l.dialer = some dn ∧ out.lookup l.acceptor = some an ∧
      connectionNamed dn l.name = some dc ∧ connectionNamed an l.name = some ac ∧
      EndsAgree m l dc ac ∧
      (dc.effectivePSK dn.psk = ac.effectivePSK an.psk ↔
        l.psk ≠ "" ∨ m.nodePSK l.dialer = m.nodePSK l.acceptor) ∧
      ∀ {κ : Type} (sum256 : String → κ),
        l.psk ≠ "" ∨ m.nodePSK l.dialer = m.nodePSK l.acceptor →
        dc.key sum256 dn.psk = ac.key sum256 an.psk := by
  have h := accepted_of_compile hvalid hcompile
  have hdc : m.dialerConnection l ∈ m.linkConnections l.dialer l := by
    simp [Network.linkConnections]
  have hac : m.acceptorConnection l ∈ m.linkConnections l.acceptor l := by
    simp [Network.linkConnections]
  obtain ⟨dn, hdn, hdpsk, hdfound⟩ := h.end_connection hl (.inl rfl) hdc
  obtain ⟨an, han, hapsk, hafound⟩ := h.end_connection hl (.inr rfl) hac
  have hdialer : (m.dialerConnection l).psk = l.psk := rfl
  have hacceptor : (m.acceptorConnection l).psk = l.psk := rfl
  have hiff : (m.dialerConnection l).defaults.effectivePSK dn.psk =
      (m.acceptorConnection l).defaults.effectivePSK an.psk ↔
      l.psk ≠ "" ∨ m.nodePSK l.dialer = m.nodePSK l.acceptor := by
    simp only [Connection.effectivePSK, Connection.defaults_eq, hdialer, hacceptor, hdpsk, hapsk]
    by_cases hlpsk : l.psk = "" <;> simp [hlpsk]
  refine ⟨dn, an, _, _, hdn, han, hdfound, hafound, endsAgree_link m l, hiff, fun sum256 hkeys => ?_⟩
  rw [Connection.key, Connection.key, hiff.mpr hkeys]

/-- A leaf that reaches the internet through a gateway with a key of its own. -/
def leafNetwork (gatewayPSK : String) : Network where
  psk := "shared"
  mtu := 1360
  subnet := "10.0.0.0/24"
  protocols := (∅ : FMap String ProtocolSpec).insert "udp" { transport := "udp" }
  nodes := (∅ : FMap String Node).insert "gw"
      { ip := "1.1.1.1", psk := gatewayPSK
        egresses := (∅ : FMap String Config.Egress).insert "a"
          { mode := "kernel", extIface := "eth0" } }
    |>.insert "leaf"
      { connections := (∅ : FMap String Conn).insert "T"
          { type := "tun", ip := "10.0.0.2", captureDefault := true } }
  links := [
    { name := "leaf-up", dialer := "leaf", acceptor := "gw", dataflow := toAcceptor,
      protocol := "udp", port := 1 },
    { name := "gw-leaf", dialer := "leaf", acceptor := "gw", dataflow := toDialer,
      protocol := "udp", port := 2, multiple := true, idSetter := "T" }]
  paths := [{ name := "leaf", node := "leaf",
              routes := [{ egress := "a", up := ["leaf-up"], down := ["gw-leaf"] }] }]

/-- The ends of the leaf's links agree when the gateway has no key of its own. -/
theorem link_ends_agree_leaf : ∃ m out l dn an dc ac, (leafNetwork "").validate = .ok m ∧
    m.compile = .ok out ∧ l ∈ m.links ∧ out.lookup l.dialer = some dn ∧
    out.lookup l.acceptor = some an ∧ connectionNamed dn l.name = some dc ∧
    connectionNamed an l.name = some ac ∧ EndsAgree m l dc ac := by
  have hcheck : (leafNetwork "").compilesTo (fun m _ => !m.links.isEmpty) = true := by
    decide +kernel
  obtain ⟨m, out, hvalid, hcompile, hlinks⟩ := compilesTo_iff.mp hcheck
  obtain ⟨l, hl⟩ := List.exists_mem_of_ne_nil m.links (by simpa using hlinks)
  obtain ⟨dn, an, dc, ac, hdn, han, hdc, hac, hagree, -⟩ := link_ends_agree hvalid hcompile hl
  exact ⟨m, out, l, dn, an, dc, ac, hvalid, hcompile, hl, hdn, han, hdc, hac, hagree⟩

/-- The effective keys of the two ends of a link. -/
def endKeys (out : Configs) (l : Link) : Option (String × String) := do
  let dn ← out.lookup l.dialer
  let an ← out.lookup l.acceptor
  let dc ← connectionNamed dn l.name
  let ac ← connectionNamed an l.name
  pure (dc.effectivePSK dn.psk, ac.effectivePSK an.psk)

/-- When the gateway overrides the network's key, the leaf's links compile to ends with
different keys. -/
theorem node_psk_mismatch : ∃ m out l, (leafNetwork "own").validate = .ok m ∧
    m.compile = .ok out ∧ l ∈ m.links ∧ endKeys out l = some ("shared", "own") := by
  have hcheck : (leafNetwork "own").compilesTo (fun m out =>
      m.links.any fun l => endKeys out l == some ("shared", "own")) = true := by
    decide +kernel
  obtain ⟨m, out, hvalid, hcompile, hlinks⟩ := compilesTo_iff.mp hcheck
  obtain ⟨l, hl, hkeys⟩ := List.any_eq_true.mp hlinks
  exact ⟨m, out, l, hvalid, hcompile, hl, by simpa using hkeys⟩

end Dualnet.Schema
