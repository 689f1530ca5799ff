import Armsy.Proofs.Owners

/-! Who owns a connection while its server lives: the table, then the removal on its way
to the base loop, then the `connDestory` on its way back. The chain breaks only when
`connDestory` has run, on the connection's own loop, where no handler is running then. -/

namespace Armsy
namespace Ownership

open Server (Stepped Acting Pushing FrameStep TableStep UserStep)
open TcpServer (Named fullName fullName_injective)

variable {listenAddr : InetAddress} {name : List Char} {s s' : Server} {e : ServerEvent}
  {c l : ℕ} {f : Task} {k : Connection}

/-- A step in a run of accepts, events and closes: it starts neither `~TcpServer` nor a
`send()` of another thread. -/
def ordinary : ServerEvent → Bool
  | .destroy | .send _ => false
  | _ => true

/-- `connEstablish` has run on an accepted connection. -/
def Established (s : Server) (c : ℕ) : Prop := c < s.accepted ∧ (s.conns c).state ≠ .connecting

theorem established_step (h : Stepped s e s') (he : Established s c) : Established s' c :=
  ⟨he.1.trans_le h.accepted_le, h.ne_connecting he.1 he.2⟩

/-! ### One connection -/

structure Consistent (k : Connection) : Prop where
  fresh : k.state = .connecting → k.channel.state = .initialized ∧ k.tornDownOn = none
  tied : k.state ≠ .connecting → k.channel.tied = true
  added : k.channel.state = .added → k.tornDownOn = none
  torn : ∀ l, k.tornDownOn = some l → l = k.loop ∧ k.state ≠ .connected

theorem new_consistent (n : List Char) (l self fd : ℕ) : Consistent (.new n l self fd) :=
  ⟨fun _ => ⟨rfl, rfl⟩, fun h => absurd rfl h, fun _ => rfl, by simp [Connection.new]⟩

/-- What a connection must be like for an act to leave it consistent. -/
def Fits (k : Connection) : Act → Prop
  | .connEstablish => k.tornDownOn = none
  | .connDestory l => l = k.loop ∧ k.state ≠ .connecting
  | .setDisconnecting => k.state ≠ .connecting
  | .handleClose | .sendInLoop _ | .drained => k.tornDownOn = none ∧ k.state ≠ .connecting

theorem act_consistent {a : Act} (hk : Consistent k) (hf : Fits k a) : Consistent (k.act a) := by
  cases a with
  | connEstablish =>
    have hn : k.tornDownOn = none := hf
    refine ⟨by simp [Connection.act], fun _ => rfl, fun _ => hn, ?_⟩
    simp [Connection.act, hn]
  | connDestory l =>
    obtain ⟨hl, hs⟩ := hf
    have ht := hk.tied hs
    simp only [Connection.act]
    split_ifs with hc
    · exact ⟨by simp, fun _ => ht, by simp, by simp [hl]⟩
    · exact ⟨fun h => absurd h hs, fun _ => ht, by simp, by simp [hl, hc]⟩
  | setDisconnecting =>
    have hs : k.state ≠ .connecting := hf
    refine ⟨by simp [Connection.act], fun _ => hk.tied hs, hk.added, ?_⟩
    intro l hl
    exact ⟨(hk.torn l hl).1, by simp [Connection.act]⟩
  | handleClose =>
    obtain ⟨hn, hs⟩ := hf
    exact ⟨by simp [Connection.act], fun _ => hk.tied hs, fun _ => hn,
      by simp [Connection.act, hn]⟩
  | sendInLoop w =>
    obtain ⟨hn, hs⟩ := hf
    simp only [Connection.act]
    split_ifs
    · exact ⟨by simp, fun _ => hk.tied hs, fun _ => hn, by simp [hn]⟩
    · exact ⟨by simp, fun _ => hk.tied hs, fun _ => hn, by simp [hn]⟩
  | drained =>
    obtain ⟨hn, hs⟩ := hf
    exact ⟨fun h => absurd h hs, fun _ => hk.tied hs, fun _ => hn, by simp [Connection.act, hn]⟩

/-! ### The invariant -/

/-- The loop that a functor is queued to. -/
def home (s : Server) : Task → ℕ
  | .removeConnectionInLoop _ => 0
  | f => (s.conns f.conn).loop

structure Queued (s : Server) (l : ℕ) (f : Task) : Prop where
  accepted : f.conn < s.accepted
  home : l = home s f
  established : f ≠ .connEstablish f.conn → Established s f.conn
  quiet : f ≠ .sendInLoop f.conn

/-- What a frame says of its connection. -/
def Framed (s : Server) : Frame → Prop
  | .idle => True
  | .accepted c => c < s.accepted
  | .handedOver c => c < s.accepted ∧ ((s.conns c).loop = 0 → Established s c)
  | .closing c | .closed c | .removing c _ | .removed c _ => Established s c

structure Dispatching (s : Server) (l : ℕ) (d : ℕ × Bool) : Prop where
  guard : d.2 = true
  established : Established s d.1
  loop : (s.conns d.1).loop = l
  up : (s.conns d.1).tornDownOn = none

/-- How many times `connEstablish` is still to run on `c`. -/
def establishing (s : Server) (c : ℕ) : ℕ :=
  (if (s.loops 0).frame = .accepted c then 1 else 0) +
    (s.loops (s.conns c).loop).queue.waiting.count (.connEstablish c)

/-- Where the owner is that sees `c` through to its `connDestory`. -/
inductive Kept (s : Server) (c : ℕ) : Prop
  | mapped : s.mapped c = true → Kept s c
  | queued : .removeConnectionInLoop c ∈ (s.loops 0).queue.waiting → Kept s c
  | removing {nested : Bool} : (s.loops 0).frame = .removing c nested → Kept s c
  | removed {nested : Bool} : (s.loops 0).frame = .removed c nested → Kept s c
  | leaving : .connDestory c ∈ (s.loops (s.conns c).loop).queue.waiting → Kept s c

structure Inv (listenAddr : InetAddress) (name : List Char) (s : Server) : Prop where
  named : Named listenAddr name s.table
  counter : s.table.nextConnId = s.accepted + 1
  names : ∀ c < s.accepted, (s.conns c).name = fullName listenAddr name (c + 1)
  alive : s.life = .alive
  running : ∀ l, (s.loops l).running = true
  cursor : s.threads ≠ 0 → s.next < s.threads
  loop_le : ∀ c < s.accepted, (s.conns c).loop ≤ s.threads
  conn : ∀ c < s.accepted, Consistent (s.conns c)
  queued : ∀ l, ∀ f ∈ (s.loops l).queue.waiting, Queued s l f
  spent : ∀ l, ∀ f ∈ (s.loops l).spent, Established s f.conn
  framed : ∀ l, Framed s (s.loops l).frame
  anchored : Server.Anchored s
  dispatching : ∀ l d, (s.loops l).dispatching = some d → Dispatching s l d
  users : ∀ u ∈ s.users, Established s u.conn ∧ u.point ≠ .send
  once : ∀ c < s.accepted, establishing s c ≤ if (s.conns c).state = .connecting then 1 else 0
  kept : ∀ c < s.accepted, (s.conns c).tornDownOn = none → Kept s c

theorem init_inv (listenAddr : InetAddress) (name : List Char) (threads : ℕ) :
    Inv listenAddr name (.init listenAddr name threads) where
  named := TcpServer.new_named listenAddr name
  counter := rfl
  names := by simp [Server.init]
  alive := rfl
  running := fun _ => rfl
  cursor := Nat.pos_of_ne_zero
  loop_le := by simp [Server.init]
  conn := by simp [Server.init]
  queued := by simp [Server.init, LoopThread.start]
  spent := by simp [Server.init, LoopThread.start]
  framed := fun _ => trivial
  anchored := Server.init_anchored listenAddr name threads
  dispatching := by simp [Server.init, LoopThread.start]
  users := by simp [Server.init]
  once := by simp [Server.init]
  kept := by simp [Server.init]

/-! ### What the invariant says of one step -/

theorem connecting_of_establishing (hi : Inv listenAddr name s) (hc : c < s.accepted)
    (h : 0 < establishing s c) : (s.conns c).state = .connecting := by
  by_contra hne
  have := hi.once c hc
  rw [if_neg hne] at this
  omega

theorem count_le_establishing (s : Server) (c : ℕ) :
    (s.loops (s.conns c).loop).queue.waiting.count (.connEstablish c) ≤ establishing s c :=
  Nat.le_add_left ..

theorem established_of_removing (hi : Inv listenAddr name s) {nested : Bool}
    (hf : (s.loops l).frame = .removing c nested) : Established s c := by
  have h := hi.framed l
  rwa [hf] at h

theorem established_of_removed (hi : Inv listenAddr name s) {nested : Bool}
    (hf : (s.loops l).frame = .removed c nested) : Established s c := by
  have h := hi.framed l
  rwa [hf] at h

theorem established_of_closing (hi : Inv listenAddr name s)
    (hf : (s.loops l).frame = .closing c) : Established s c := by
  have h := hi.framed l
  rwa [hf] at h

/-- The head of a batch is where it belongs. -/
theorem queued_of_batch (hi : Inv listenAddr name s) {fs : List Task}
    (hb : (s.loops l).queue.batch = f :: fs) : Queued s l f :=
  hi.queued l f (by simp [BatchQueue.waiting, hb])

theorem alive_of_step (hi : Inv listenAddr name s) (h : Stepped s e s') (ho : ordinary e = true) :
    s'.life = .alive := by
  have hready := h.ready
  rw [h.life]
  cases hready with
  | destroy => cases ho
  | destroyNext hd | endDestroyNext hd | destroyed hd => simp [hi.alive] at hd
  | _ => exact hi.alive

theorem not_destroyNext (hi : Inv listenAddr name s) : ¬ Stepped s (.destroyNext c) s' := by
  intro h
  cases h.ready with
  | destroyNext hd => simp [hi.alive] at hd

theorem not_stop (hi : Inv listenAddr name s) : ¬ Stepped s (.stop l) s' := by
  intro h
  cases h.ready with
  | stop hd => simp [hi.alive] at hd

/-- A step acts on an accepted connection, and only where the act fits. -/
theorem fits_of_acting {a : Act} (hi : Inv listenAddr name s) (h : Stepped s e s')
    (ha : Acting s e c a) : c < s.accepted ∧ Fits (s.conns c) a := by
  have hready := h.ready
  have unestablished (hc : c < s.accepted) (hpos : 0 < establishing s c) :
      (s.conns c).tornDownOn = none :=
    ((hi.conn c hc).fresh (connecting_of_establishing hi hc hpos)).2
  have connected (hc : c < s.accepted) (hst : (s.conns c).state = .connected) :
      (s.conns c).tornDownOn = none := by
    cases ht : (s.conns c).tornDownOn with
    | none => rfl
    | some l => exact absurd hst ((hi.conn c hc).torn l ht).2
  cases ha with
  | establish hf _ =>
    have hc : c < s.accepted := by simpa [Framed, hf] using hi.framed 0
    exact ⟨hc, unestablished hc (by simp [establishing, hf])⟩
  | handleClose hd =>
    have hd := hi.dispatching _ _ hd
    exact ⟨hd.established.1, hd.up, hd.established.2⟩
  | runEstablish hb =>
    have hq := queued_of_batch hi hb
    refine ⟨hq.accepted, unestablished hq.accepted ?_⟩
    have hl : _ = (s.conns c).loop := hq.home
    refine lt_of_lt_of_le ?_ (count_le_establishing s c)
    rw [List.count_pos_iff, ← hl]
    simp [BatchQueue.waiting, hb]
  | runDestory hb =>
    have hq := queued_of_batch hi hb
    exact ⟨hq.accepted, hq.home, (hq.established (by simp)).2⟩
  | runSend hb => exact absurd rfl (queued_of_batch hi hb).quiet
  | sendNow =>
    cases hready with
    | sendNow _ hc _ hst => exact ⟨hc, connected hc hst, by simp [hst]⟩
  | shutdownNow =>
    cases hready with
    | shutdownNow _ hc _ hst => exact ⟨hc, by simp [Fits, hst]⟩
  | drained hd =>
    have hd := hi.dispatching _ _ hd
    exact ⟨hd.established.1, hd.up, hd.established.2⟩
  | shutdownSet hu =>
    have hu := (hi.users _ (List.mem_of_getElem? hu)).1
    exact ⟨hu.1, hu.2⟩
  | destroyNext _ => exact absurd h (not_destroyNext hi)

/-- `connDestory` runs on the connection's own loop, between two dispatches. -/
theorem tornDownOn_cases (hi : Inv listenAddr name s) (h : Stepped s e s') (hc : c < s.accepted) :
    (s'.conns c).tornDownOn = (s.conns c).tornDownOn ∨
      ∃ waits fs, e = .runFunctor (s.conns c).loop waits ∧
        (s.loops (s.conns c).loop).queue.batch = .connDestory c :: fs := by
  rcases h.conns_cases c with hs | ⟨self, fd, -, rfl, -⟩ | ⟨a, ha, hs⟩
  · exact .inl (by rw [hs])
  · exact absurd hc (lt_irrefl _)
  · rw [hs]
    rcases Connection.act_tornDownOn (s.conns c) a with ht | ⟨m, rfl, -⟩
    · exact .inl ht
    · cases ha with
      | runDestory hb =>
        have hm : m = (s.conns c).loop := (queued_of_batch hi hb).home
        subst hm
        exact .inr ⟨_, _, rfl, hb⟩
      | destroyNext _ => exact absurd h (not_destroyNext hi)

theorem tornDownOn_of_run {waits : Bool} {fs : List Task} (h : Stepped s (.runFunctor l waits) s')
    (hb : (s.loops l).queue.batch = .connDestory c :: fs) : (s'.conns c).tornDownOn = some l := by
  rw [h.conns_of_acts (c := c) (a := .connDestory l) (by simp [Server.acts, hb]),
    Connection.act_connDestory_tornDownOn]

/-! ### Each part of the invariant after a step -/

theorem lt_accepted_cases (h : Stepped s e s') (hc : c < s'.accepted) :
    c < s.accepted ∨ (∃ self fd, e = .accept self fd) ∧ c = s.accepted := by
  rw [h.accepted] at hc
  cases e with
  | accept self fd =>
    rcases Nat.lt_succ_iff_lt_or_eq.1 hc with hc | hc
    · exact .inl hc
    · exact .inr ⟨⟨self, fd, rfl⟩, hc⟩
  | _ => exact .inl hc

theorem nextLoop_le (hi : Inv listenAddr name s) : s.nextLoop ≤ s.threads := by
  unfold Server.nextLoop
  split_ifs with h0
  · omega
  · exact hi.cursor h0

theorem cursor_step (hi : Inv listenAddr name s) (h : Stepped s e s') (h0 : s'.threads ≠ 0) :
    s'.next < s'.threads := by
  rw [h.threads] at h0 ⊢
  rw [h.next]
  cases e with
  | accept self fd =>
    simp only [Server.nextCursor, if_neg h0]
    exact Nat.mod_lt _ (Nat.pos_of_ne_zero h0)
  | _ => exact hi.cursor h0

theorem conn_step (hi : Inv listenAddr name s) (h : Stepped s e s') (hc : c < s'.accepted) :
    Consistent (s'.conns c) ∧ (s'.conns c).loop ≤ s'.threads := by
  rw [h.threads]
  rcases lt_accepted_cases h hc with hc | ⟨⟨self, fd, rfl⟩, rfl⟩
  · rw [(h.name_eq hc).2]
    refine ⟨?_, hi.loop_le c hc⟩
    rcases h.conns_cases c with hs | ⟨self, fd, -, rfl, -⟩ | ⟨a, ha, hs⟩
    · rw [hs]
      exact hi.conn c hc
    · exact absurd hc (lt_irrefl _)
    · rw [hs]
      exact act_consistent (hi.conn c hc) (fits_of_acting hi h ha).2
  · rw [h.conns_accept]
    exact ⟨new_consistent .., nextLoop_le hi⟩

/-- The table keeps its name and address, and counts the connections. -/
theorem table_step (hi : Inv listenAddr name s) (h : Stepped s e s') :
    Named listenAddr name s'.table ∧ s'.table.nextConnId = s'.accepted + 1 := by
  rcases h.table_cases with ⟨ht, hacc⟩ | ht
  · rw [ht, hacc]
    exact ⟨hi.named, hi.counter⟩
  · generalize s'.table = t at ht
    cases ht with
    | accept ht =>
      refine ⟨hi.named.newConnection ht, ?_⟩
      obtain ⟨-, rfl⟩ := TcpServer.newConnection_cases ht
      rw [h.accepted]
      simp [Server.nextAccepted, hi.counter]
    | erase _ =>
      have hacc : s'.accepted = s.accepted := h.accepted
      rw [hacc]
      exact ⟨hi.named.erase _, hi.counter⟩
    | destroyNext => exact absurd h (not_destroyNext hi)

theorem names_step (hi : Inv listenAddr name s) (h : Stepped s e s') (hc : c < s'.accepted) :
    (s'.conns c).name = fullName listenAddr name (c + 1) := by
  rcases lt_accepted_cases h hc with hc | ⟨⟨self, fd, rfl⟩, rfl⟩
  · rw [(h.name_eq hc).1, hi.names c hc]
  · rw [h.conns_accept]
    simp only [Connection.new]
    rw [hi.named.connName, hi.counter]

theorem queued_mono (h : Stepped s e s') (hq : Queued s l f) : Queued s' l f where
  accepted := hq.accepted.trans_le h.accepted_le
  home := by
    have hl := (h.name_eq hq.accepted).2
    have := hq.home
    cases f <;> first | exact this | exact this.trans hl.symm
  established := fun hf => established_step h (hq.established hf)
  quiet := hq.quiet

theorem queued_step (hi : Inv listenAddr name s) (h : Stepped s e s')
    (hf : f ∈ (s'.loops l).queue.waiting) : Queued s' l f := by
  have hready := h.ready
  rcases h.waiting_cases hf with hf | hp
  · exact queued_mono h (hi.queued l f hf)
  · refine queued_mono h ?_
    cases Server.pushes_cases hp with
    | @establish c hfr _ =>
      have hc : c < s.accepted := by simpa [Framed, hfr] using hi.framed 0
      exact ⟨hc, rfl, fun hne => absurd rfl hne, by simp⟩
    | @removeConnection m c hfr _ =>
      have hc := established_of_closing hi hfr
      exact ⟨hc.1, rfl, fun _ => hc, by simp⟩
    | @pushDestory c n hfr =>
      have hc := established_of_removed hi hfr
      exact ⟨hc.1, rfl, fun _ => hc, by simp⟩
    | @notice m c =>
      cases hready with
      | notice _ hc hl hst => exact ⟨hc, hl.symm, fun _ => ⟨hc, hst⟩, by simp⟩
    | send hu hpt => exact absurd hpt (hi.users _ (List.mem_of_getElem? hu)).2
    | shutdown hu _ =>
      have hu := (hi.users _ (List.mem_of_getElem? hu)).1
      exact ⟨hu.1, rfl, fun _ => hu, by simp⟩
    | destroyNext _ => exact absurd h (not_destroyNext hi)

theorem spent_step (hi : Inv listenAddr name s) (h : Stepped s e s')
    (hf : f ∈ (s'.loops l).spent) : Established s' f.conn := by
  rcases h.spent_cases hf with hf | ⟨waits, fs, rfl, hb⟩
  · exact established_step h (hi.spent l f hf)
  · have hq := queued_of_batch hi hb
    by_cases hne : f = .connEstablish f.conn
    · refine ⟨hq.accepted.trans_le h.accepted_le, ?_⟩
      rw [hne] at hb
      rw [h.conns_of_acts (c := f.conn) (a := .connEstablish) (by simp [Server.acts, hb])]
      simp [Connection.act]
    · exact established_step h (hq.established hne)

theorem framed_mono (h : Stepped s e s') {fr : Frame} (hf : Framed s fr) : Framed s' fr := by
  cases fr with
  | idle => trivial
  | accepted c => exact hf.trans_le h.accepted_le
  | handedOver c =>
    refine ⟨hf.1.trans_le h.accepted_le, fun hl => established_step h (hf.2 ?_)⟩
    rwa [(h.name_eq hf.1).2] at hl
  | closing c | closed c | removing c nested | removed c nested => exact established_step h hf

theorem framed_step (hi : Inv listenAddr name s) (h : Stepped s e s') (l : ℕ) :
    Framed s' (s'.loops l).frame := by
  have hfr := hi.framed l
  rcases h.frame_cases l with hs | hs
  · rw [hs]
    exact framed_mono h hfr
  · generalize (s'.loops l).frame = fr at hs
    cases hs with
    | accept _ =>
      rw [Framed, h.accepted]
      exact Nat.lt_succ_self _
    | @establish c hf =>
      rw [hf] at hfr
      refine ⟨hfr.trans_le h.accepted_le, fun hl => ⟨hfr.trans_le h.accepted_le, ?_⟩⟩
      rw [(h.name_eq hfr).2] at hl
      rw [h.conns_of_acts (c := c) (a := .connEstablish) (by simp [Server.acts, hf, hl])]
      simp [Connection.act]
    | endAccept _ | endClose _ | pushDestory _ => trivial
    | handleClose _ hd => exact established_step h (hi.dispatching _ _ hd).established
    | removeConnectionNow hf | removeConnection _ hf =>
      exact established_step h (established_of_closing hi hf)
    | erase hf => exact established_step h (established_of_removing hi hf)
    | pushDestoryNested hf => exact established_step h (established_of_removed hi hf)
    | runFunctor _ hb =>
      exact established_step h ((queued_of_batch hi hb).established (by simp))

theorem dispatching_step (hi : Inv listenAddr name s) (h : Stepped s e s') {d : ℕ × Bool}
    (hd : (s'.loops l).dispatching = some d) : Dispatching s' l d := by
  have hready := h.ready
  rcases h.dispatching_cases hd with hd | ⟨rfl, hg⟩
  · have hi' := hi.dispatching l d hd
    refine ⟨hi'.guard, established_step h hi'.established, ?_, ?_⟩
    · rw [(h.name_eq hi'.established.1).2]
      exact hi'.loop
    · rcases tornDownOn_cases hi h hi'.established.1 with ht | ⟨waits, fs, rfl, -⟩
      · rw [ht]
        exact hi'.up
      · cases hready with
        | runFunctor _ _ hnone =>
          rw [hi'.loop, hd] at hnone
          cases hnone
  · obtain ⟨hc, hl, hadd⟩ : d.1 < s.accepted ∧ (s.conns d.1).loop = l ∧
        (s.conns d.1).channel.state = .added := by
      cases hready with
      | dispatch _ _ hc hl hadd => exact ⟨hc, hl, hadd⟩
    have hk := hi.conn d.1 hc
    have hst : (s.conns d.1).state ≠ .connecting := by
      intro hst
      rw [(hk.fresh hst).1] at hadd
      cases hadd
    have hsame : s'.conns = s.conns := h.conns
    exact ⟨by rw [hg, hk.tied hst], established_step h ⟨hc, hst⟩, by rw [hsame, hl],
      by rw [hsame, hk.added hadd]⟩

theorem established_of_canCopy (hi : Inv listenAddr name s) (h : s.canCopy c = true) :
    Established s c := by
  simp only [Server.canCopy, LoopThread.passes, Bool.or_eq_true, Bool.and_eq_true,
    List.any_eq_true, decide_eq_true_eq] at h
  rcases h with (⟨u, hu, rfl⟩ | ⟨l, -, (hf | hd) | ⟨f, hf, hc⟩⟩) | ⟨hl, hf | hlife⟩
  · exact (hi.users u hu).1
  · exact established_of_closing hi hf
  · exact (hi.dispatching _ _ hd).established
  · have := hi.spent l f hf
    rcases hc with (rfl | rfl) | rfl <;> exact this
  · have := hi.framed 0
    rw [hf] at this
    exact this.2 hl
  · simp [hi.alive] at hlife

theorem users_step (hi : Inv listenAddr name s) (h : Stepped s e s') (ho : ordinary e = true)
    {u : User} (hu : u ∈ s'.users) : Established s' u.conn ∧ u.point ≠ .send := by
  rcases h.users_cases hu with hu | hu
  · exact ⟨established_step h (hi.users u hu).1, (hi.users u hu).2⟩
  · cases hu with
    | copy => exact ⟨established_step h (established_of_canCopy hi h.enabled), by simp⟩
    | send _ _ => cases ho
    | shutdown hv _ => exact ⟨established_step h (hi.users _ hv).1, by simp⟩
    | shutdownSet hv => exact ⟨established_step h (hi.users _ hv).1, by simp⟩
    | enqueue hv => exact ⟨established_step h (hi.users _ hv).1, by simp⟩

/-! ### `connEstablish` runs once -/

theorem frame_establish (h : Stepped s .establish s') (hf : (s.loops 0).frame = .accepted c) :
    (s'.loops 0).frame = .handedOver c := by
  rw [h.loop, Server.moved_eq]
  simp [Server.mover, Server.move, hf]

/-- No frame of `newConnection` appears but for a new connection. -/
theorem accepted_frame (h : Stepped s e s') (hc : c < s.accepted)
    (hf : (s'.loops 0).frame = .accepted c) : (s.loops 0).frame = .accepted c := by
  rcases h.frame_cases 0 with hs | hs
  · rw [← hs, hf]
  · rw [hf] at hs
    cases hs with
    | accept _ => exact absurd hc (lt_irrefl _)

/-- The count never grows; it is handed from the frame of `newConnection` to the queue. -/
theorem establishing_le (h : Stepped s e s') (hc : c < s.accepted) :
    establishing s' c ≤ establishing s c := by
  have hw := h.waiting_eq (s.conns c).loop
  have hle := (Server.moved_waiting s e (s.conns c).loop).count_le (.connEstablish c)
  simp only [establishing, (h.name_eq hc).2, hw, List.count_append]
  by_cases hp : s.pushes e = some ((s.conns c).loop, .connEstablish c)
  · obtain ⟨rfl, hf, -⟩ := Server.of_pushes_connEstablish hp
    have hone : (s.pushed .establish (s.conns c).loop).count (.connEstablish c) ≤ 1 := by
      simp [Server.pushed, hp]
    rw [frame_establish h hf, hf]
    simp only [reduceCtorEq, if_false, if_true]
    omega
  · have hnone : (s.pushed e (s.conns c).loop).count (.connEstablish c) = 0 :=
      List.count_eq_zero.2 fun hmem => hp (Server.mem_pushed.1 hmem)
    have hframe : (if (s'.loops 0).frame = .accepted c then 1 else 0) ≤
        if (s.loops 0).frame = .accepted c then 1 else 0 := by
      split_ifs with h1 h2
      · rfl
      · exact absurd (accepted_frame h hc h1) h2
      · omega
      · rfl
    omega

/-- The count comes down when `connEstablish` runs. -/
theorem establishing_lt (hi : Inv listenAddr name s) (h : Stepped s e s')
    (ha : Acting s e c .connEstablish) (hc : c < s.accepted) :
    establishing s' c < establishing s c := by
  have hle := (Server.moved_waiting s e (s.conns c).loop).count_le (.connEstablish c)
  simp only [establishing, (h.name_eq hc).2, h.waiting_eq, List.count_append]
  cases ha with
  | establish hf hl =>
    have hnone : s.pushed .establish (s.conns c).loop = [] := by
      simp [Server.pushed, Server.pushes, hf, hl]
    rw [hnone, frame_establish h hf, hf]
    simp only [reduceCtorEq, if_false, if_true, List.count_nil]
    omega
  | @runEstablish m _ w fs hb =>
    have hm : m = (s.conns c).loop := (queued_of_batch hi hb).home
    subst hm
    have hframe : (s.loops 0).frame ≠ .accepted c → (s'.loops 0).frame ≠ .accepted c :=
      fun hne hf => hne (accepted_frame h hc hf)
    have hnone : s.pushed (.runFunctor (s.conns c).loop w) (s.conns c).loop = [] := rfl
    have hpop : (s.moved (.runFunctor (s.conns c).loop w) (s.conns c).loop).queue =
        (s.loops (s.conns c).loop).queue.pop := by
      rw [Server.moved_eq]
      simp [Server.mover, Server.move, hb]
    rw [hnone, hpop, BatchQueue.waiting_pop _ hb, List.count_cons_self]
    split_ifs with h1 h2
    · simp
    · exact absurd h1 (hframe h2)
    · simp only [List.count_nil]
      omega
    · simp

theorem once_step (hi : Inv listenAddr name s) (h : Stepped s e s') (hc : c < s'.accepted) :
    establishing s' c ≤ if (s'.conns c).state = .connecting then 1 else 0 := by
  rcases lt_accepted_cases h hc with hc | ⟨⟨self, fd, rfl⟩, rfl⟩
  · have hle := establishing_le h hc
    have hone := hi.once c hc
    by_cases h1 : (s.conns c).state = .connecting
    · by_cases h2 : (s'.conns c).state = .connecting
      · rw [if_pos h1] at hone
        rw [if_pos h2]
        omega
      · -- a connection stops being kConnecting only when `connEstablish` runs
        have ha : Acting s e c .connEstablish := by
          rcases h.conns_cases c with hs | ⟨self, fd, -, rfl, -⟩ | ⟨a, ha, hs⟩
          · rw [hs] at h2
            exact absurd h1 h2
          · exact absurd hc (lt_irrefl _)
          · have hf := (fits_of_acting hi h ha).2
            cases a with
            | connEstablish => exact ha
            | setDisconnecting => exact absurd h1 hf
            | _ => exact absurd h1 hf.2
        have hlt := establishing_lt hi h ha hc
        rw [if_pos h1] at hone
        rw [if_neg h2]
        omega
    · rw [if_neg h1] at hone
      omega
  · have hnew := h.conns_accept
    have hw : (s'.loops (s'.conns s.accepted).loop).queue.waiting.count
        (.connEstablish s.accepted) = 0 := by
      refine List.count_eq_zero.2 fun hmem => ?_
      rcases h.waiting_cases hmem with hold | hp
      · exact absurd (hi.queued _ _ hold).accepted (lt_irrefl _)
      · cases hp
    have hst : (s'.conns s.accepted).state = .connecting := by rw [hnew]; rfl
    rw [establishing, hw, if_pos hst]
    split_ifs <;> omega

/-! ### The owner that sees a connection through -/

theorem frame_of_run {waits : Bool} {fs : List Task} (h : Stepped s (.runFunctor l waits) s')
    (hb : (s.loops l).queue.batch = .removeConnectionInLoop c :: fs) :
    (s'.loops l).frame = .removing c false := by
  rw [h.loop, Server.moved_eq]
  simp [Server.mover, Server.move, hb]

theorem frame_erase {nested : Bool} (h : Stepped s .erase s')
    (hf : (s.loops 0).frame = .removing c nested) : (s'.loops 0).frame = .removed c nested := by
  rw [h.loop, Server.moved_eq]
  simp [Server.mover, Server.move, hf]

theorem mapped_step (hi : Inv listenAddr name s) (h : Stepped s e s') (hc : c < s.accepted)
    (hm : s.mapped c = true) :
    s'.mapped c = true ∨ ∃ nested, (s'.loops 0).frame = .removed c nested := by
  simp only [Server.mapped, decide_eq_true_eq, (h.name_eq hc).1] at hm ⊢
  have named {d : ℕ} (hd : d < s.accepted) (hne : d ≠ c) :
      (s.conns c).name ≠ (s.conns d).name := by
    rw [hi.names c hc, hi.names d hd]
    intro heq
    exact hne (Nat.succ_injective (fullName_injective listenAddr name heq)).symm
  rcases h.table_cases with ⟨ht, -⟩ | ht
  · exact .inl (by rw [ht, hm])
  · generalize s'.table = t at ht
    cases ht with
    | accept ht =>
      obtain ⟨-, rfl⟩ := TcpServer.newConnection_cases ht
      have hne : (s.conns c).name ≠ s.table.connName := by
        rw [hi.names c hc, hi.named.connName, hi.counter]
        intro heq
        have := fullName_injective listenAddr name heq
        omega
      exact .inl ((Function.update_of_ne hne ..).trans hm)
    | @erase d n hf =>
      by_cases hd : d = c
      · subst hd
        exact .inr ⟨n, frame_erase h hf⟩
      · have hne := named (established_of_removing hi hf).1 hd
        exact .inl ((Function.update_of_ne hne ..).trans hm)
    | destroyNext => exact absurd h (not_destroyNext hi)

theorem kept_step (hi : Inv listenAddr name s) (h : Stepped s e s') (hc : c < s.accepted)
    (hk : Kept s c) (hn : (s'.conns c).tornDownOn = none) : Kept s' c := by
  have hready := h.ready
  have hl := (h.name_eq hc).2
  have not_discard {m : ℕ} : e ≠ .discard m := by
    rintro rfl
    cases hready with
    | discard _ _ hr => simp [hi.running] at hr
  cases hk with
  | mapped hm =>
    rcases mapped_step hi h hc hm with hm | ⟨n, hf⟩
    · exact .mapped hm
    · exact .removed hf
  | queued hq =>
    rcases h.waiting_kept hq with hq | ⟨waits, fs, rfl, hb⟩ | he
    · exact .queued hq
    · exact .removing (frame_of_run h hb)
    · exact absurd he not_discard
  | @removing n hf =>
    rcases h.frame_cases 0 with hs | hs
    · exact .removing (hs.trans hf)
    · generalize (s'.loops 0).frame = fr at hs
      cases hs with
      | erase _ => exact .removed (frame_erase h hf)
      | accept h0 | establish h0 | endAccept h0 | handleClose h0 _ | removeConnectionNow h0
      | endClose h0 | pushDestoryNested h0 | pushDestory h0 | runFunctor h0 _ => simp [hf] at h0
      | removeConnection h0 _ => exact absurd rfl h0
  | @removed n hf =>
    rcases h.frame_cases 0 with hs | hs
    · exact .removed (hs.trans hf)
    · generalize (s'.loops 0).frame = fr at hs
      cases hs with
      | pushDestoryNested _ | pushDestory _ =>
        refine .leaving ?_
        rw [hl]
        exact h.waiting_of_pushes (by simp [Server.pushes, hf])
      | accept h0 | establish h0 | endAccept h0 | handleClose h0 _ | removeConnectionNow h0
      | endClose h0 | erase h0 | runFunctor h0 _ => simp [hf] at h0
      | removeConnection h0 _ => exact absurd rfl h0
  | leaving hq =>
    rcases h.waiting_kept hq with hq | ⟨waits, fs, rfl, hb⟩ | he
    · exact .leaving (by rwa [hl])
    · rw [tornDownOn_of_run h hb] at hn
      cases hn
    · exact absurd he not_discard

theorem kept_accept {self fd : ℕ}
    (h : Stepped s (.accept self fd) s') : Kept s' s.accepted := by
  refine .mapped ?_
  have hlt : s.table.nextConnId < 2 ^ 31 - 1 := by
    cases h.ready
    assumption
  simp only [Server.mapped, h.conns_accept, h.table, Server.nextTable, TcpServer.newConnection,
    if_pos hlt, Option.getD_some, Connection.new, Function.update_self, decide_true]

theorem step_inv (hi : Inv listenAddr name s) (hs : s.step e = some s') (ho : ordinary e = true) :
    Inv listenAddr name s' := by
  have h := Server.step_cases hs
  refine ⟨(table_step hi h).1, (table_step hi h).2, fun c => names_step hi h,
    alive_of_step hi h ho, ?_, cursor_step hi h, fun c hc => (conn_step hi h hc).2,
    fun c hc => (conn_step hi h hc).1, fun l f => queued_step hi h, fun l f => spent_step hi h,
    framed_step hi h, h.anchored hi.anchored, fun l d => dispatching_step hi h,
    fun u => users_step hi h ho, fun c => once_step hi h, ?_⟩
  · intro l
    rw [h.running_eq _ l]
    · exact hi.running l
    · rintro m rfl
      exact not_stop hi h
  · intro c hc hn
    rcases lt_accepted_cases h hc with hc | ⟨⟨self, fd, rfl⟩, rfl⟩
    · refine kept_step hi h hc (hi.kept c hc ?_) hn
      rcases tornDownOn_cases hi h hc with ht | ⟨waits, fs, rfl, hb⟩
      · rw [← ht, hn]
      · rw [tornDownOn_of_run h hb] at hn
        cases hn
    · exact kept_accept h

/-! ### The last reference -/

theorem refCount_pos_of_kept (hi : Inv listenAddr name s) (hc : c < s.accepted)
    (hk : Kept s c) : 0 < s.refCount c := by
  cases hk with
  | mapped hm => exact Server.refCount_pos_of_mapped hm
  | queued hq => exact Server.refCount_pos_of_task (Nat.zero_le _) (.inl hq) rfl
  | @removing nested hf | @removed nested hf =>
    cases nested with
    | false =>
      have ha := hi.anchored 0 c (by simp [hf])
      exact Server.refCount_pos_of_task (Nat.zero_le _) (.inr ha) rfl
    | true => exact Server.refCount_pos_of_frame (Nat.zero_le _) (by simp [hf, Frame.refs])
  | leaving hq => exact Server.refCount_pos_of_task (hi.loop_le c hc) (.inl hq) rfl

/-- While the server lives, the last reference to an accepted connection is dropped
only after `connDestory` has returned for it on its own loop, and not while an event
of its channel is being dispatched. -/
theorem last_reference {threads : ℕ} {tr : List (Transition Server ServerEvent)}
    (h : Run Server.step (.init listenAddr name threads) tr s)
    (ho : ∀ τ ∈ tr, ordinary τ.event = true) :
    ∀ τ ∈ tr, ∀ c < τ.pre.accepted, 0 < τ.pre.refCount c → τ.post.refCount c = 0 →
      (τ.pre.conns c).tornDownOn = some (τ.pre.conns c).loop ∧
        ∀ l guard, (τ.pre.loops l).dispatching ≠ some (c, guard) := by
  intro τ hτ c hc _ hpost
  obtain ⟨tr₁, tr₂, rfl, hr, hst⟩ := h.split hτ
  have hi : Inv listenAddr name τ.pre :=
    hr.invariant_of (C := fun τ => ordinary τ.event = true) (init_inv listenAddr name threads)
      (fun _ _ _ hi hst ho => step_inv hi hst ho) fun σ hσ => ho σ (List.mem_append_left _ hσ)
  have hs := Server.step_cases hst
  have hi' := step_inv hi hst (ho τ hτ)
  have hc' : c < τ.post.accepted := hc.trans_le hs.accepted_le
  have hne : (τ.post.conns c).tornDownOn ≠ none := by
    intro hn
    have := refCount_pos_of_kept hi' hc' (hi'.kept c hc' hn)
    omega
  have htorn : (τ.pre.conns c).tornDownOn ≠ none := by
    rcases tornDownOn_cases hi hs hc with ht | ⟨waits, fs, he, hb⟩
    · rwa [← ht]
    · -- the functor that has run `connDestory` still holds its pointer
      rw [he] at hs
      have := Server.refCount_pos_of_task (hs.threads ▸ hi.loop_le c hc)
        (.inr (hs.spent_of_run hb)) rfl
      omega
  obtain ⟨l, hl⟩ := Option.ne_none_iff_exists'.1 htorn
  refine ⟨by rw [hl, ((hi.conn c hc).torn l hl).1], fun l guard hd => ?_⟩
  exact htorn (hi.dispatching l _ hd).up

/-- A connection to a pool of one loop is accepted, closed by its peer and let go of. -/
def lifeCycle : List ServerEvent :=
  [.accept 1 7, .establish, .endAccept, .swap 1, .runFunctor 1 false, .dropFunctor 1,
    .dispatch 1 0, .handleClose 1, .removeConnection 1, .endClose 1, .endDispatch 1, .swap 0,
    .runFunctor 0 false, .erase, .pushDestory, .dropFunctor 0, .swap 1, .runFunctor 1 false,
    .dropFunctor 1]

theorem last_reference_life_cycle : ∃ tr s, Run Server.step (.sample 1) tr s ∧
    tr.map Transition.event = lifeCycle ∧
    (∃ τ ∈ tr, τ.pre.refCount 0 = 1 ∧ τ.post.refCount 0 = 0) ∧
    ∀ τ ∈ tr, ∀ c < τ.pre.accepted, 0 < τ.pre.refCount c → τ.post.refCount c = 0 →
      (τ.pre.conns c).tornDownOn = some (τ.pre.conns c).loop ∧
        ∀ l guard, (τ.pre.loops l).dispatching ≠ some (c, guard) := by
  obtain ⟨tr, s, hr, he, ho, hlast⟩ := exists_run Server.step (.sample 1) lifeCycle
    (P := fun tr _ => (∀ τ ∈ tr, ordinary τ.event = true) ∧
      ∃ τ ∈ tr, τ.pre.refCount 0 = 1 ∧ τ.post.refCount 0 = 0) (by decide +kernel)
  exact ⟨tr, s, hr, he, hlast, last_reference hr ho⟩

end Ownership
end Armsy
