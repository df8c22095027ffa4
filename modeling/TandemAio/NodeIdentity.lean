import Mathlib.Logic.Relation
import TandemAio.Reachable
import TandemAio.Worker

/-!
# `src/main.rs`, `src/config.rs`, `src/state.rs`, `src/registration.rs`: who a node is

A node registers at its first boot, saves the id it is given, and is the same node at every boot
after.  The boots of one machine share its files: each of them may stop at any point, while the
servers answer everybody's requests.
-/

open Reasoning Reasoning.Prog

namespace TandemAio

/-- The server that a base URL names. -/
abbrev ServerUrl := String

/-- `NodeState`; an id or a token that is `""` is `none`. -/
structure NodeState where
  nodeId : Option NodeId
  nodeToken : Option Token
  serverUrl : ServerUrl
  registeredAt : Nat
deriving DecidableEq

/-- `NodeConfig`, but for the paths of the two files. -/
structure NodeConfig where
  serverUrl : ServerUrl
  nodeId : Option NodeId
  nodeToken : Option Token
deriving DecidableEq

/-- The environment of a boot. -/
structure BootEnv where
  serverUrl : ServerUrl
  nodeId : Option NodeId
  nodeToken : Option Token
  /-- `TANDEM_NODE_REGISTER_ONLY` -/
  registerOnly : Bool
  /-- `registration_auth` -/
  registrationAuth : Option Token
deriving DecidableEq

/-- The files of the node. -/
structure NodeDisk where
  /-- The key pair whose private key is in `node_key.pem`; `none` when no private key can be loaded
  from it. -/
  keyFile : Option Nat
  /-- What `NodeState::load` makes of `node_state.json`. -/
  stateFile : Option NodeState
deriving DecidableEq

/-- `env_or_saved` -/
def envOrSaved {α : Type} (env saved : Option α) : Option α :=
  match env with
  | some value => some value
  | none => saved

/-- `NodeConfig::from_env` -/
def NodeConfig.fromEnv (env : BootEnv) (saved : Option NodeState) : NodeConfig where
  serverUrl := env.serverUrl
  nodeId := envOrSaved env.nodeId (saved.bind (·.nodeId))
  nodeToken := envOrSaved env.nodeToken (saved.bind (·.nodeToken))

/-- What `persist_identity` saves. -/
def NodeConfig.saved (cfg : NodeConfig) (registeredAt : Nat) : NodeState where
  nodeId := cfg.nodeId
  nodeToken := cfg.nodeToken
  serverUrl := cfg.serverUrl
  registeredAt := registeredAt

/-- How far a boot has got. -/
inductive BootPc
  | off
  /-- Before `NodeConfig::from_env`. -/
  | started (env : BootEnv)
  /-- `register_node`: before the private key is written, and before the request. -/
  | generating (env : BootEnv) (cfg : NodeConfig)
  | posting (env : BootEnv) (cfg : NodeConfig) (pair : Nat)
  /-- `persist_identity` -/
  | persisting (env : BootEnv) (cfg : NodeConfig)
  /-- `load_private_key` -/
  | loading (cfg : NodeConfig)
  /-- The loops, with a private key. -/
  | running (cfg : NodeConfig) (pair : Nat)
deriving DecidableEq

/-- Between reading the identity and having the private key. -/
def BootPc.busy : BootPc → Bool
  | .generating .. | .posting .. | .persisting .. | .loading _ => true
  | .off | .started _ | .running .. => false

/-- Where `main` goes on once the node has an id. -/
def registered (env : BootEnv) (cfg : NodeConfig) : BootPc :=
  if env.registerOnly then .off else .loading cfg

/-- Where `main` goes on when it has read the configuration. -/
def configured (env : BootEnv) (cfg : NodeConfig) : BootPc :=
  match cfg.nodeId with
  | none => .generating env cfg
  | some _ => registered env cfg

/-- A machine with its boots, and the servers. -/
structure NodeHost where
  disk : NodeDisk
  boot : Nat → BootPc
  log : ServerUrl → List Entry
  server : ServerUrl → Store

namespace NodeHost

@[simps] def goTo (h : NodeHost) (i : Nat) (pc : BootPc) : NodeHost :=
  { h with boot := Function.update h.boot i pc }

@[simps] def writeKey (h : NodeHost) (pair : Option Nat) : NodeHost :=
  { h with disk := { h.disk with keyFile := pair } }

@[simps] def writeState (h : NodeHost) (state : Option NodeState) : NodeHost :=
  { h with disk := { h.disk with stateFile := state } }

@[simps] def answer (h : NodeHost) (url : ServerUrl) (a : Action) (r : Response) (s' : Store) :
    NodeHost :=
  { h with
    log := Function.update h.log url (h.log url ++ [⟨h.server url, a, r, s'⟩])
    server := Function.update h.server url s' }

end NodeHost

inductive BootLabel
  | launch (env : BootEnv)
  | fromEnv (i : Nat) (readable : Bool)
  | other

/-- One step of a boot, of a server or of what stops a boot. -/
inductive BootStep [Sha256] : NodeHost → BootLabel → NodeHost → Prop
  | launch {h i} (env) : h.boot i = .off → BootStep h (.launch env) (h.goTo i (.started env))
  | fromEnv {h i env} (readable : Bool) : h.boot i = .started env →
      BootStep h (.fromEnv i readable) (h.goTo i (configured env
        (.fromEnv env (if readable then h.disk.stateFile else none))))
  | generate {h i env cfg} (pair) : h.boot i = .generating env cfg →
      BootStep h .other ((h.writeKey (some pair)).goTo i (.posting env cfg pair))
  /-- The file is left half written, by an error or because the boot stops. -/
  | damageKey {h i env cfg} : h.boot i = .generating env cfg →
      BootStep h .other ((h.writeKey none).goTo i .off)
  | register {h i env cfg pair nodeId nodeToken s'} : h.boot i = .posting env cfg pair →
      Fresh (h.log cfg.serverUrl)
        (.register (workerRegisterNode pair nodeId nodeToken env.registrationAuth)) →
      Runs (handle (.register (workerRegisterNode pair nodeId nodeToken env.registrationAuth)))
        (h.server cfg.serverUrl) (.registered nodeId nodeToken) s' →
      BootStep h .other ((h.answer cfg.serverUrl
        (.register (workerRegisterNode pair nodeId nodeToken env.registrationAuth))
        (.registered nodeId nodeToken) s').goTo i (.persisting env
          { cfg with nodeId := some nodeId, nodeToken := some nodeToken }))
  | persist {h i env cfg} (registeredAt) : h.boot i = .persisting env cfg →
      BootStep h .other ((h.writeState (some (cfg.saved registeredAt))).goTo i (registered env cfg))
  /-- `persist_identity` warns. -/
  | persistFailed {h i env cfg} : h.boot i = .persisting env cfg →
      BootStep h .other (h.goTo i (registered env cfg))
  /-- The file is left half written, and the boot goes on or stops. -/
  | damageState {h i env cfg pc} : h.boot i = .persisting env cfg →
      pc = registered env cfg ∨ pc = .off → BootStep h .other ((h.writeState none).goTo i pc)
  | loadKey {h i cfg pair} : h.boot i = .loading cfg → h.disk.keyFile = some pair →
      BootStep h .other (h.goTo i (.running cfg pair))
  /-- A boot is over: it fails, is stopped, or gets no answer. -/
  | exit {h} (i) : BootStep h .other (h.goTo i .off)
  /-- A request of anybody, a registration whose answer is lost or refused included. -/
  | request {h url a r s'} : Fresh (h.log url) a → Runs (handle a) (h.server url) r s' →
      BootStep h .other (h.answer url a r s')

/-- The environment names no identity, the file with the identity can be read, it was written for
the server of this boot, and no other boot is on its way. -/
def BootLabel.orderly (h : NodeHost) : BootLabel → Prop
  | .launch env => env.nodeId = none ∧ env.nodeToken = none
  | .fromEnv i readable => readable = true ∧ (∀ j, j ≠ i → (h.boot j).busy = false) ∧
      ∀ env state, h.boot i = .started env → h.disk.stateFile = some state →
        state.nodeId ≠ none → state.serverUrl = env.serverUrl
  | .other => True

/-- Steps of orderly boots. -/
def OrderlyBoots [Sha256] : NodeHost → NodeHost → Prop :=
  Relation.ReflTransGen fun h h' ↦ ∃ l, BootStep h l h' ∧ l.orderly h

/-- No boot has started yet, and no identity is saved. -/
structure NodeHost.Unregistered [Sha256] (h : NodeHost) : Prop where
  off : ∀ i, h.boot i = .off
  unsaved : ∀ state, h.disk.stateFile = some state → state.nodeId = none
  served : ∀ url, Run (h.log url) (h.server url)

/-! ## Enrolment -/

/-- The server knows the node by its token, and has the public key of the pair. -/
structure Store.Enrolled (s : Store) (nodeId : NodeId) (nodeToken : Token) (pair : Nat) : Prop where
  node : ∃ node, s.node nodeId = some node ∧ node.nodeToken = nodeToken
  publicKey : s.nodePublicKey nodeId = some (.rsa pair)

variable {s s' : Store} {l : Label}

/-- The token of a node stays. -/
theorem Move.nodeToken (hm : Move s l s') {n : NodeId} {node : Node} (hn : s.node n = some node) :
    ∃ node', s'.node n = some node' ∧ node'.nodeToken = node.nodeToken := by
  cases hm with
  | register a owner hnew =>
    have hne : n ≠ a.nodeId := by
      rintro rfl
      rw [hnew.node] at hn
      cases hn
    refine ⟨node, ?_, rfl⟩
    rw [Store.addMember_node, Store.putNode_node, Function.update_of_ne hne, hn]
  | heartbeat | take | complete | fail | clearPointer | reclaim =>
    rcases update_map_some hn _ _ with hnew | hold
    · exact ⟨_, hnew, rfl⟩
    · exact ⟨node, hold, rfl⟩
  | _ => exact ⟨node, hn, rfl⟩

/-- A node keeps its public key. -/
theorem Move.nodePublicKey (hm : Move s l s') {n : NodeId} {key : PublicKey}
    (hk : s.nodePublicKey n = some key) : s'.nodePublicKey n = some key := by
  cases hm with
  | @publicKey m _ key' _ hnone =>
    have hne : n ≠ m := by
      rintro rfl
      rw [hnone] at hk
      cases hk
    rw [Store.putPublicKey_nodePublicKey, Function.update_of_ne hne, hk]
  | _ => exact hk

theorem Store.Enrolled.move {n : NodeId} {token : Token} {pair : Nat} (h : s.Enrolled n token pair)
    (hm : Move s l s') : s'.Enrolled n token pair := by
  obtain ⟨node, hn, rfl⟩ := h.node
  exact ⟨hm.nodeToken hn, hm.nodePublicKey h.publicKey⟩

theorem Store.Enrolled.authenticate {n : NodeId} {token : Token} {pair : Nat}
    (h : s.Enrolled n token pair) :
    ∃ node, s.authenticate ⟨some n, some token⟩ = .ok (n, node) := by
  obtain ⟨node, hn, rfl⟩ := h.node
  refine ⟨node, ?_⟩
  simp only [Store.authenticate, hn, compareToken, beq_self_eq_true, if_true]

/-- A registration that is answered with an id enrols the node. -/
theorem wp_register_enrolled (s : Store) (pair : Nat) (nodeId : NodeId) (nodeToken : Token)
    (bearer : Option Token) :
    wp (register (workerRegisterNode pair nodeId nodeToken bearer)) (fun r s' ↦
      r = .registered nodeId nodeToken → s'.Enrolled nodeId nodeToken pair) s := by
  rw [register, wp_bind]
  refine (wp_resolveRegistrationIdentity s _).mono fun o s₁ h₁ ↦ ?_
  cases o with
  | error r =>
    refine (wp_pure r _ _).mpr fun hr ↦ ?_
    have hrefused := h₁.2 r rfl
    rw [hr] at hrefused
    cases hrefused
  | ok owner =>
    simp only [wp_bind, Server.wp_read, Server.wp_write, workerRegisterNode, wp_pure]
    refine fun _ ↦
      ⟨⟨(workerRegisterNode pair nodeId nodeToken bearer).node owner s₁.clock, ?_, rfl⟩, ?_⟩
    · rw [Store.putPublicKey_node, Store.addMember_node, Store.putNode_node, Function.update_self]
      rfl
    · rw [Store.putPublicKey_nodePublicKey, Function.update_self]

/-! ## Boots -/

namespace NodeHost

/-- No identity is saved. -/
def Unsaved (h : NodeHost) : Prop := ∀ state, h.disk.stateFile = some state → state.nodeId = none

/-- The server has the identity of a configuration, with the public key of the pair. -/
def Enrols (h : NodeHost) (cfg : NodeConfig) (pair : Nat) : Prop :=
  ∃ nodeId nodeToken, cfg.nodeId = some nodeId ∧ cfg.nodeToken = some nodeToken ∧
    (h.server cfg.serverUrl).Enrolled nodeId nodeToken pair

/-- A saved identity belongs to the private key beside it. -/
def SavedBelongs (h : NodeHost) : Prop :=
  ∀ state, h.disk.stateFile = some state → state.nodeId ≠ none →
    ∃ pair, h.disk.keyFile = some pair ∧
      h.Enrols ⟨state.serverUrl, state.nodeId, state.nodeToken⟩ pair

/-- What the servers have enrolled in one host, they have in the other. -/
def Grown (h h' : NodeHost) : Prop :=
  ∀ url nodeId nodeToken pair, (h.server url).Enrolled nodeId nodeToken pair →
    (h'.server url).Enrolled nodeId nodeToken pair

/-- A saved identity is the one of the configuration. -/
def Bears (h : NodeHost) (cfg : NodeConfig) : Prop :=
  ∀ state, h.disk.stateFile = some state → state.nodeId ≠ none → cfg.nodeId = state.nodeId

theorem Unsaved.bears {h : NodeHost} (hu : h.Unsaved) (cfg : NodeConfig) : h.Bears cfg :=
  fun state hs hid ↦ absurd (hu state hs) hid

theorem Grown.refl (h : NodeHost) : h.Grown h := fun _ _ _ _ he ↦ he

theorem Grown.enrols {h h' : NodeHost} (hg : h.Grown h') {cfg : NodeConfig} {pair : Nat}
    (he : h.Enrols cfg pair) : h'.Enrols cfg pair := by
  obtain ⟨nodeId, nodeToken, hid, htoken, he⟩ := he
  exact ⟨nodeId, nodeToken, hid, htoken, hg _ _ _ _ he⟩

end NodeHost

/-- What holds of the files and the servers when a boot has got this far. -/
def BootPc.agrees (h : NodeHost) : BootPc → Prop
  | .off => True
  | .started env => env.nodeId = none ∧ env.nodeToken = none
  | .generating _ _ => h.Unsaved
  | .posting _ _ pair => h.Unsaved ∧ h.disk.keyFile = some pair
  | .persisting _ cfg => h.Unsaved ∧ ∃ pair, h.disk.keyFile = some pair ∧ h.Enrols cfg pair
  | .loading cfg => h.Bears cfg ∧ ∃ pair, h.disk.keyFile = some pair ∧ h.Enrols cfg pair
  | .running cfg pair => h.Enrols cfg pair

/-- Only a boot on its way looks at the files. -/
theorem BootPc.agrees.mono {h h' : NodeHost} {pc : BootPc} (ha : pc.agrees h)
    (hdisk : pc.busy = true → h'.disk = h.disk) (hg : h.Grown h') : pc.agrees h' := by
  have hunsaved : pc.busy = true → h.Unsaved → h'.Unsaved := by
    intro hb hu state hs
    rw [hdisk hb] at hs
    exact hu state hs
  cases pc with
  | off => trivial
  | started => exact ha
  | generating => exact hunsaved rfl ha
  | posting =>
    refine ⟨hunsaved rfl ha.1, ?_⟩
    rw [hdisk rfl]
    exact ha.2
  | persisting =>
    obtain ⟨hu, pair, hk, he⟩ := ha
    refine ⟨hunsaved rfl hu, pair, ?_, hg.enrols he⟩
    rw [hdisk rfl]
    exact hk
  | loading =>
    obtain ⟨hbears, pair, hk, he⟩ := ha
    refine ⟨fun state hs ↦ ?_, pair, ?_, hg.enrols he⟩
    · rw [hdisk rfl] at hs
      exact hbears state hs
    · rw [hdisk rfl]
      exact hk
  | running => exact hg.enrols ha

/-- Orderly boots keep this: what is saved and what a boot carries belong together, and at most one
boot is on its way. -/
structure NodeHost.Sound [Sha256] (h : NodeHost) : Prop where
  served : ∀ url, Run (h.log url) (h.server url)
  alone : ∀ i j, (h.boot i).busy = true → (h.boot j).busy = true → i = j
  boots : ∀ i, (h.boot i).agrees h
  saved : h.SavedBelongs

section Boots

variable [Sha256] {h h₁ h' : NodeHost} {label : BootLabel} {url : ServerUrl} {cfg : NodeConfig}
  {env : BootEnv} {i : Nat} {pc : BootPc}

theorem NodeHost.Unregistered.sound (hu : h.Unregistered) : h.Sound where
  served := hu.served
  alone i _ hi := by
    rw [hu.off i] at hi
    cases hi
  boots i := by
    rw [hu.off i]
    trivial
  saved state hs hid := absurd (hu.unsaved state hs) hid

/-- Everybody else waits for the boot that is on its way. -/
theorem NodeHost.Sound.others (hs : h.Sound) (hi : (h.boot i).busy = true) (j : Nat) (hj : j ≠ i) :
    (h.boot j).busy = false := by
  rw [← Bool.not_eq_true]
  exact fun hb ↦ hj (hs.alone j i hb hi)

/-- A boot goes on.  If it is on its way then, or has written a file, nobody else is. -/
theorem NodeHost.Sound.advance (hs : h.Sound) (hboot : h₁.boot = h.boot)
    (hserved : ∀ url, Run (h₁.log url) (h₁.server url)) (hg : h.Grown h₁)
    (hothers : (pc.busy = false ∧ h₁.disk = h.disk) ∨ ∀ j, j ≠ i → (h.boot j).busy = false)
    (hpc : pc.agrees h₁) (hsaved : h₁.SavedBelongs) : (h₁.goTo i pc).Sound where
  served := hserved
  alone j k hj hk := by
    rw [NodeHost.goTo_boot, hboot, Function.update_apply] at hj hk
    split at hj
    · rename_i hji
      split at hk
      · rename_i hki
        rw [hji, hki]
      · rename_i hki
        rcases hothers with ⟨hidle, -⟩ | hothers
        · rw [hidle] at hj
          cases hj
        · rw [hothers k hki] at hk
          cases hk
    · rename_i hji
      split at hk
      · rcases hothers with ⟨hidle, -⟩ | hothers
        · rw [hidle] at hk
          cases hk
        · rw [hothers j hji] at hj
          cases hj
      · exact hs.alone j k hj hk
  boots j := by
    rw [NodeHost.goTo_boot, hboot, Function.update_apply]
    split
    · exact hpc
    · rename_i hji
      refine (hs.boots j).mono (fun hb ↦ ?_) hg
      rcases hothers with ⟨-, hdisk⟩ | hothers
      · exact hdisk
      · rw [hothers j hji] at hb
        cases hb
  saved := hsaved

/-- What a server has enrolled is not undone by a request. -/
theorem NodeHost.Sound.grown (hs : h.Sound) {a : Action} {r : Response} {s' : Store}
    (hf : Fresh (h.log url) a) (hr : Runs (handle a) (h.server url) r s') :
    h.Grown (h.answer url a r s') := by
  intro url' nodeId nodeToken pair he
  rw [NodeHost.answer_server, Function.update_apply]
  split
  · rename_i hurl
    rw [hurl] at he
    exact (Runs.via ((hs.served url).newTo hf) hr).invariant
      (I := fun s ↦ s.Enrolled nodeId nodeToken pair) (fun _ _ _ _ hm he ↦ he.move hm) he
  · exact he

theorem NodeHost.Sound.answered (hs : h.Sound) {a : Action} {r : Response} {s' : Store}
    (hf : Fresh (h.log url) a) (hr : Runs (handle a) (h.server url) r s') (url' : ServerUrl) :
    Run ((h.answer url a r s').log url') ((h.answer url a r s').server url') := by
  rw [NodeHost.answer_log, NodeHost.answer_server, Function.update_apply, Function.update_apply]
  split
  · exact (hs.served url).step hf hr
  · exact hs.served url'

omit [Sha256] in
theorem NodeHost.SavedBelongs.grown (hb : h.SavedBelongs) (hdisk : h₁.disk = h.disk)
    (hg : h.Grown h₁) : h₁.SavedBelongs := by
  intro state hstate hid
  rw [hdisk] at hstate ⊢
  obtain ⟨pair, hk, he⟩ := hb state hstate hid
  exact ⟨pair, hk, hg.enrols he⟩

omit [Sha256] in
theorem NodeHost.Unsaved.belongs (hu : h.Unsaved) : h.SavedBelongs :=
  fun state hs hid ↦ absurd (hu state hs) hid

omit [Sha256] in
/-- Once the node has an id, its boot is over or loads the key. -/
theorem registered_agrees {pair : Nat} (hbears : h.Bears cfg) (hk : h.disk.keyFile = some pair)
    (he : h.Enrols cfg pair) : (registered env cfg).agrees h := by
  unfold registered
  split
  · trivial
  · exact ⟨hbears, pair, hk, he⟩

omit [Sha256] in
/-- The configuration of an orderly boot has the saved identity or none. -/
theorem fromEnv_agrees (hb : h.SavedBelongs) (henv : env.nodeId = none ∧ env.nodeToken = none)
    (hurl : ∀ state, h.disk.stateFile = some state → state.nodeId ≠ none →
      state.serverUrl = env.serverUrl) :
    (configured env (.fromEnv env h.disk.stateFile)).agrees h := by
  unfold configured NodeConfig.fromEnv
  rw [henv.1, henv.2]
  simp only [envOrSaved]
  split
  · rename_i hnone
    intro state hstate
    rwa [hstate] at hnone
  · rename_i nodeId hsome
    obtain ⟨state, hstate, hid⟩ := Option.bind_eq_some_iff.mp hsome
    have hne : state.nodeId ≠ none := by
      rw [hid]
      exact Option.some_ne_none _
    obtain ⟨pair, hk, he⟩ := hb state hstate hne
    refine registered_agrees (fun state' hstate' _ ↦ ?_) hk ?_
    · rw [hstate'] at hsome ⊢
      rfl
    · rw [hurl state hstate hne] at he
      rw [hstate]
      exact he

theorem NodeHost.Sound.step (hs : h.Sound) (hstep : BootStep h label h')
    (hok : label.orderly h) : h'.Sound := by
  cases hstep with
  | launch env hi =>
    exact hs.advance rfl hs.served (.refl h) (.inl ⟨rfl, rfl⟩) hok hs.saved
  | @fromEnv i env readable hi =>
    obtain ⟨rfl, hothers, hurl⟩ := hok
    have henv := hs.boots i
    rw [hi] at henv
    refine hs.advance rfl hs.served (.refl h) (.inr hothers) ?_ hs.saved
    rw [if_pos rfl]
    exact fromEnv_agrees hs.saved henv fun state ↦ hurl env state hi
  | @generate i env cfg pair hi =>
    have hothers := hs.others (i := i) (by rw [hi]; rfl)
    have hu := hs.boots i
    rw [hi] at hu
    have hu : (h.writeKey (some pair)).Unsaved := hu
    exact hs.advance rfl hs.served (.refl h) (.inr hothers) ⟨hu, rfl⟩ hu.belongs
  | @damageKey i env cfg hi =>
    have hothers := hs.others (i := i) (by rw [hi]; rfl)
    have hu := hs.boots i
    rw [hi] at hu
    have hu : (h.writeKey none).Unsaved := hu
    exact hs.advance rfl hs.served (.refl h) (.inr hothers) trivial hu.belongs
  | @register i env cfg pair nodeId nodeToken s' hi hf hr =>
    have hothers := hs.others (i := i) (by rw [hi]; rfl)
    have hu := hs.boots i
    rw [hi] at hu
    obtain ⟨hu, hk⟩ := hu
    refine hs.advance rfl (hs.answered hf hr) (hs.grown hf hr) (.inr hothers) ?_
      (hs.saved.grown rfl (hs.grown hf hr))
    refine ⟨hu, pair, hk, nodeId, nodeToken, rfl, rfl, ?_⟩
    rw [NodeHost.answer_server, Function.update_self]
    exact (wp_register_enrolled _ pair nodeId nodeToken env.registrationAuth).elim hr rfl
  | @persist i env cfg registeredAt hi =>
    have hothers := hs.others (i := i) (by rw [hi]; rfl)
    have hp := hs.boots i
    rw [hi] at hp
    obtain ⟨-, pair, hk, he⟩ := hp
    have hk : (h.writeState (some (cfg.saved registeredAt))).disk.keyFile = some pair := hk
    refine hs.advance rfl hs.served (.refl h) (.inr hothers)
      (registered_agrees (fun state hstate _ ↦ ?_) hk he) fun state hstate _ ↦ ?_
    · obtain rfl := Option.some.inj hstate
      rfl
    · obtain rfl := Option.some.inj hstate
      exact ⟨pair, hk, he⟩
  | @persistFailed i env cfg hi =>
    have hothers := hs.others (i := i) (by rw [hi]; rfl)
    have hp := hs.boots i
    rw [hi] at hp
    obtain ⟨hu, pair, hk, he⟩ := hp
    exact hs.advance rfl hs.served (.refl h) (.inr hothers)
      (registered_agrees (hu.bears cfg) hk he) hs.saved
  | @damageState i env cfg pc hi hpc =>
    have hothers := hs.others (i := i) (by rw [hi]; rfl)
    have hp := hs.boots i
    rw [hi] at hp
    obtain ⟨-, pair, hk, he⟩ := hp
    have hk : (h.writeState none).disk.keyFile = some pair := hk
    have hpc : pc.agrees (h.writeState none) := by
      rcases hpc with rfl | rfl
      · exact registered_agrees (fun state hstate ↦ by cases hstate) hk he
      · trivial
    exact hs.advance rfl hs.served (.refl h) (.inr hothers) hpc fun state hstate ↦ by cases hstate
  | @loadKey i cfg pair hi hk =>
    have hp := hs.boots i
    rw [hi] at hp
    obtain ⟨-, pair', hk', he⟩ := hp
    rw [hk] at hk'
    obtain rfl := Option.some.inj hk'
    exact hs.advance rfl hs.served (.refl h) (.inl ⟨rfl, rfl⟩) he hs.saved
  | exit i => exact hs.advance rfl hs.served (.refl h) (.inl ⟨rfl, rfl⟩) trivial hs.saved
  | @request url a r s' hf hr =>
    exact ⟨hs.answered hf hr, hs.alone, fun j ↦ (hs.boots j).mono (fun _ ↦ rfl) (hs.grown hf hr),
      hs.saved.grown rfl (hs.grown hf hr)⟩

theorem NodeHost.Sound.boots_of (hs : h.Sound) (hsteps : OrderlyBoots h h') : h'.Sound := by
  induction hsteps with
  | refl => exact hs
  | tail _ hstep ih =>
    obtain ⟨label, hstep, hok⟩ := hstep
    exact ih.step hstep hok

/-! ## One machine, one node -/

/-- The identity is saved, and what was not running before is the node of that identity. -/
structure NodeHost.Settled (h₀ : NodeHost) (state : NodeState) (pair : Nat) (h : NodeHost) :
    Prop where
  disk : h.disk = ⟨some pair, some state⟩
  running : ∀ i cfg pair', h.boot i = .running cfg pair' →
    h₀.boot i = .running cfg pair' ∨ (cfg.nodeId = state.nodeId ∧ pair' = pair)

/-- With a saved identity nobody registers. -/
theorem NodeHost.Sound.not_unsaved (hs : h.Sound) {state : NodeState}
    (hstate : h.disk.stateFile = some state) (hid : state.nodeId ≠ none) :
    (∀ env cfg, h.boot i ≠ .generating env cfg) ∧
      (∀ env cfg pair, h.boot i ≠ .posting env cfg pair) ∧
      ∀ env cfg, h.boot i ≠ .persisting env cfg := by
  have hb := hs.boots i
  refine ⟨fun env cfg hi ↦ ?_, fun env cfg pair hi ↦ ?_, fun env cfg hi ↦ ?_⟩
  · rw [hi] at hb
    exact hid (hb state hstate)
  · rw [hi] at hb
    exact hid (hb.1 state hstate)
  · rw [hi] at hb
    exact hid (hb.1 state hstate)

omit [Sha256] in
theorem NodeHost.Settled.goTo {h₀ : NodeHost} {state : NodeState} {pair : Nat}
    (hset : h₀.Settled state pair h)
    (hpc : ∀ cfg pair', pc = .running cfg pair' → cfg.nodeId = state.nodeId ∧ pair' = pair) :
    h₀.Settled state pair (h.goTo i pc) where
  disk := hset.disk
  running j cfg pair' hj := by
    rw [NodeHost.goTo_boot, Function.update_apply] at hj
    split at hj
    · exact .inr (hpc cfg pair' hj)
    · exact hset.running j cfg pair' hj

omit [Sha256] in
theorem configured_ne_running {pair : Nat} {cfg' : NodeConfig} :
    configured env cfg ≠ .running cfg' pair := by
  unfold configured registered
  split
  · exact fun h ↦ by cases h
  · split <;> exact fun h ↦ by cases h

theorem NodeHost.Settled.step {h₀ : NodeHost} {state : NodeState} {pair : Nat}
    (hset : h₀.Settled state pair h) (hs : h.Sound) (hid : state.nodeId ≠ none)
    (hstep : BootStep h label h') : h₀.Settled state pair h' := by
  have hstate : h.disk.stateFile = some state := by rw [hset.disk]
  cases hstep with
  | launch => exact hset.goTo fun cfg pair' hpc ↦ by cases hpc
  | fromEnv => exact hset.goTo fun cfg pair' hpc ↦ absurd hpc configured_ne_running
  | @generate i env cfg _ hi | @damageKey i env cfg hi =>
    exact absurd hi ((hs.not_unsaved hstate hid).1 env cfg)
  | @register i env cfg pair' _ _ _ hi =>
    exact absurd hi ((hs.not_unsaved hstate hid).2.1 env cfg pair')
  | @persist i env cfg _ hi | @persistFailed i env cfg hi | @damageState i env cfg _ hi =>
    exact absurd hi ((hs.not_unsaved hstate hid).2.2 env cfg)
  | @loadKey i cfg pair' hi hk =>
    refine hset.goTo fun cfg' pair'' hpc ↦ ?_
    cases hpc
    have hb := hs.boots i
    rw [hi] at hb
    rw [hset.disk, Option.some.injEq] at hk
    exact ⟨hb.1 state hstate hid, hk.symm⟩
  | exit => exact hset.goTo fun cfg pair' hpc ↦ by cases hpc
  | request => exact ⟨hset.disk, hset.running⟩

end Boots

namespace Sample

def localServer : ServerUrl := "http://127.0.0.1:6767"

def newMachine : NodeHost := ⟨⟨none, none⟩, fun _ ↦ .off, fun _ ↦ [], fun _ ↦ server⟩

theorem newMachine_unregistered : newMachine.Unregistered where
  off _ := rfl
  unsaved state hs := by cases hs
  served _ := .start _ _ _

def bootEnv (registerOnly : Bool) : BootEnv := ⟨localServer, none, none, registerOnly, none⟩

def anonymous : NodeConfig := ⟨localServer, none, none⟩

def bootedA : NodeConfig := ⟨localServer, some nodeA, some keyA⟩

/-- The first registration that a server of this sample gets. -/
def firstNode (pair : Nat) : Action := .register (workerRegisterNode pair nodeA keyA none)

def firstNodeStore (pair : Nat) : Store :=
  ((exec 20 (handle (firstNode pair)) server).map (·.2)).getD server

theorem firstNode_runs (pair : Nat) :
    Runs (handle (firstNode pair)) server (.registered nodeA keyA) (firstNodeStore pair) := by
  have hexec : exec 20 (handle (firstNode pair)) server =
      some (Response.registered nodeA keyA, firstNodeStore pair) := rfl
  exact runs_of_exec hexec

/-- The machine before its boot reads the configuration, before it has a key, before it asks the
server for an id, and with the answer. -/
def launched : NodeHost := newMachine.goTo 0 (.started (bootEnv false))

def keyless : NodeHost := launched.goTo 0 (.generating (bootEnv false) anonymous)

def asking : NodeHost := (keyless.writeKey (some 7)).goTo 0 (.posting (bootEnv false) anonymous 7)

def answeredA : NodeHost :=
  (asking.answer localServer (firstNode 7) (.registered nodeA keyA) (firstNodeStore 7)).goTo 0
    (.persisting (bootEnv false) bootedA)

def savedA : NodeHost :=
  (answeredA.writeState (some (bootedA.saved 1))).goTo 0 (.loading bootedA)

def runningA : NodeHost := savedA.goTo 0 (.running bootedA 7)

theorem answeredA_boots : OrderlyBoots newMachine answeredA := by
  have hlaunch : BootStep newMachine (.launch (bootEnv false)) launched := .launch _ rfl
  have hread : BootStep launched (.fromEnv 0 true) keyless :=
    @BootStep.fromEnv _ launched 0 (bootEnv false) true rfl
  have hgenerate : BootStep keyless .other asking := .generate 7 rfl
  have hfresh : Fresh [] (firstNode 7) := ⟨by decide, fun x _ e he ↦ by cases he⟩
  have hregister : BootStep asking .other answeredA :=
    @BootStep.register _ asking 0 (bootEnv false) anonymous 7 nodeA keyA (firstNodeStore 7) rfl
      hfresh (firstNode_runs 7)
  have halone : ∀ j, j ≠ 0 → (launched.boot j).busy = false := by
    intro j hj
    unfold launched
    rw [NodeHost.goTo_boot, Function.update_of_ne hj]
    rfl
  have hfirst : (BootLabel.fromEnv 0 true).orderly launched :=
    ⟨rfl, halone, fun env state _ hs ↦ by cases hs⟩
  exact (((Relation.ReflTransGen.single ⟨_, hlaunch, rfl, rfl⟩).tail ⟨_, hread, hfirst⟩).tail
    ⟨_, hgenerate, trivial⟩).tail ⟨_, hregister, trivial⟩

theorem savedA_boots : OrderlyBoots newMachine savedA := by
  have hpersist : BootStep answeredA .other savedA :=
    @BootStep.persist _ answeredA 0 (bootEnv false) bootedA 1 rfl
  exact answeredA_boots.tail ⟨_, hpersist, trivial⟩

theorem savedA_runs : OrderlyBoots savedA runningA := by
  have hload : BootStep savedA .other runningA := .loadKey rfl rfl
  exact .single ⟨_, hload, trivial⟩

end Sample

/-- Over any boots of a machine that do not overlap, each of which may stop anywhere or fail to
save what it got, a node that has reached its loops is accepted by its server under the id and token
it sends, and the public key the server has for it is the one of the private key it works with. -/
theorem running_node_enrolled [Sha256] {h h' : NodeHost} {i : Nat} {cfg : NodeConfig} {pair : Nat}
    (hu : h.Unregistered) (hsteps : OrderlyBoots h h') (hi : h'.boot i = .running cfg pair) :
    ∃ nodeId node, (h'.server cfg.serverUrl).authenticate ⟨cfg.nodeId, cfg.nodeToken⟩ =
        .ok (nodeId, node) ∧
      (h'.server cfg.serverUrl).nodePublicKey nodeId = some (.rsa pair) := by
  have hb := (hu.sound.boots_of hsteps).boots i
  rw [hi] at hb
  obtain ⟨nodeId, nodeToken, hid, htoken, he⟩ := hb
  obtain ⟨node, hok⟩ := he.authenticate
  refine ⟨nodeId, node, ?_, he.publicKey⟩
  rw [hid, htoken]
  exact hok

open Sample in
theorem running_node_enrolled_first : ∃ nodeId node,
    (runningA.server localServer).authenticate ⟨some nodeA, some keyA⟩ = .ok (nodeId, node) ∧
      (runningA.server localServer).nodePublicKey nodeId = some (.rsa 7) :=
  running_node_enrolled (i := 0) newMachine_unregistered (savedA_boots.trans savedA_runs) rfl

/-- Once an identity is saved, the machine stays that node: no later boot changes either file, and
each one that reaches its loops has the saved id and the private key that was there. -/
theorem saved_identity_kept [Sha256] {h₀ h h' : NodeHost} {state : NodeState}
    (hu : h₀.Unregistered) (hbefore : OrderlyBoots h₀ h) (hafter : OrderlyBoots h h')
    (hstate : h.disk.stateFile = some state) (hid : state.nodeId ≠ none) :
    h'.disk = h.disk ∧ ∀ i cfg pair, h'.boot i = .running cfg pair →
      h.boot i = .running cfg pair ∨ (cfg.nodeId = state.nodeId ∧ h.disk.keyFile = some pair) := by
  have hs := hu.sound.boots_of hbefore
  obtain ⟨pair, hk, -⟩ := hs.saved state hstate hid
  have hdisk : h.disk = ⟨some pair, some state⟩ := by rw [← hk, ← hstate]
  have hset : h.Settled state pair h' := by
    induction hafter with
    | refl => exact ⟨hdisk, fun i cfg pair hi ↦ .inl hi⟩
    | tail hafter hstep ih =>
      obtain ⟨label, hstep, -⟩ := hstep
      exact ih.step (hs.boots_of hafter) hid hstep
  refine ⟨hset.disk.trans hdisk.symm, fun i cfg pair' hi ↦ ?_⟩
  rcases hset.running i cfg pair' hi with hold | ⟨hcfg, rfl⟩
  · exact .inl hold
  · exact .inr ⟨hcfg, hk⟩

open Sample in
theorem saved_identity_kept_first : runningA.disk = savedA.disk ∧
    ∀ i cfg pair, runningA.boot i = .running cfg pair → savedA.boot i = .running cfg pair ∨
      (cfg.nodeId = some nodeA ∧ savedA.disk.keyFile = some pair) :=
  saved_identity_kept newMachine_unregistered savedA_boots savedA_runs rfl (Option.some_ne_none _)

end TandemAio
