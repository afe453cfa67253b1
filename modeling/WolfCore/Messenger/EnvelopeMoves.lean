import WolfCore.Lib.Custody
import WolfCore.Messenger.MemoryTransport

/-!
# The life of an envelope in a memory transport

`Send` gives an envelope a number, which is its key from then on, whatever stamps it had before and
gets later.  Its life is a table of moves (`move`): its number is taken, it goes to the channel, a
`Get` takes it from there and stores it in the pending set, and `Ack` removes it from there;
`Reject` takes it back and requeues it, or drops it if there is no room.

* `Phase`, `phasePre`: what a goroutine has to do with an envelope at each point of a call;
* `KeyInv`: the channel and the pending set hold what the moves have put there;
* `KeyInv.legal`, `KeyInv.exec`: every step takes envelopes from where they are, and keeps this.

The numbers come from a 64 bit counter: they are new as long as it has not gone round since the
transport was created.
-/

namespace WolfCore.Messenger.MemoryTransport

open Go Interleave Custody

/-! ### Keys -/

/-- What was written can be read back, so different numbers are written differently. -/
theorem formatUint_injective : Function.Injective formatUint := by
  have hread : Function.LeftInverse (fun s => Decimal.natOf s.toList) formatUint := by
    intro n
    have hlt : n < 10 ^ max 1 (Nat.log 10 n + 1) :=
      (Nat.lt_pow_succ_log_self (by decide) n).trans_le
        (Nat.pow_le_pow_right (by decide) (le_max_right _ _))
    simp only [formatUint, itoa, Decimal.decimal, String.toList_ofList]
    rw [if_neg (by omega), List.nil_append, Int.natAbs_natCast, Decimal.natOf_pad,
      Nat.mod_eq_of_lt hlt]
  exact hread.injective

section

variable {V : Type} [Typed V] [MemoryIDStamp V]

/-- The key of an envelope, if it has one. -/
def keyOf (env : Envelope V) : Option String :=
  match pendingKey env with
  | .returned key => some key
  | .panicked _ => none

/-- The stamp of `Send` decides the key, whatever stamps the envelope had before. -/
theorem keyOf_memoryIDStamp (env : Envelope V) (id : String) :
    keyOf (env.withStamp (memoryIDStamp id)) = some id := by
  have hlast : (env.withStamp (memoryIDStamp id)).last memoryIDName = some (memoryIDStamp id) :=
    env.last_withStamp_self (memoryIDStamp id)
  simp only [keyOf, pendingKey, hlast]
  simp [memoryIDStamp, assertMemoryID, MemoryIDStamp.assertID_ofID]

/-- The stamp of a worker does not change the key. -/
theorem keyOf_received (env : Envelope V) (name : String) (now : ℤ) :
    keyOf (env.withStamp (.received name now)) = keyOf env := by
  have hlast : (env.withStamp (.received name now)).last memoryIDName = env.last memoryIDName :=
    env.last_withStamp_of_ne (by change Stamp.nameReceived ≠ memoryIDName; decide)
  simp only [keyOf, pendingKey, hlast]
  rfl

theorem withKey_of_keyOf {env : Envelope V} {key : String} (hkey : keyOf env = some key)
    (k : String → Prog (Reply V) (Local V)) : withKey env k = k key := by
  unfold keyOf at hkey
  unfold withKey
  cases hp : pendingKey env with
  | returned key' => simp_all
  | panicked p => simp [hp] at hkey

/-! ### Moves -/

/-- Where an envelope is, and which goroutine has it. -/
inductive Place
  | fresh (i : ℕ)
  | channel
  | inHands (i : ℕ)
  | pending (i : ℕ)
  | acked
  | dropped
  deriving DecidableEq

/-- The goroutine that has an envelope. -/
def Place.owner : Place → Option ℕ
  | fresh i => some i
  | inHands i => some i
  | pending i => some i
  | _ => none

/-- The life of an envelope. -/
def move : Logged (Reply V) → Option (Move String Place)
  | ⟨i, .nextID, id⟩ => some ⟨id, none, .fresh i⟩
  | ⟨i, .chSend env, .sent⟩ => (keyOf env).map (⟨·, some (.fresh i), .channel⟩)
  | ⟨i, .chRecv, .received (.received env)⟩ => (keyOf env).map (⟨·, some .channel, .inHands i⟩)
  | ⟨i, .store key _, _⟩ => some ⟨key, some (.inHands i), .pending i⟩
  | ⟨i, .delete .ack key, _⟩ => some ⟨key, some (.pending i), .acked⟩
  | ⟨i, .delete .reject key, _⟩ => some ⟨key, some (.pending i), .inHands i⟩
  | ⟨i, .chTrySend env, .sent⟩ => (keyOf env).map (⟨·, some (.inHands i), .channel⟩)
  | ⟨i, .chTrySend env, .blocked⟩ => (keyOf env).map (⟨·, some (.inHands i), .dropped⟩)
  | _ => none

section

variable {i : ℕ} {key : String} {env : Envelope V}

theorem move_nextID (id : String) :
    move (⟨i, .nextID, id⟩ : Logged (Reply V)) = some ⟨id, none, .fresh i⟩ := rfl

theorem move_store (env : Envelope V) :
    move ⟨i, .store key env, ()⟩ = some ⟨key, some (.inHands i), .pending i⟩ := rfl

theorem move_ack :
    move (⟨i, .delete .ack key, ()⟩ : Logged (Reply V)) =
      some ⟨key, some (.pending i), .acked⟩ := rfl

theorem move_take :
    move (⟨i, .delete .reject key, ()⟩ : Logged (Reply V)) =
      some ⟨key, some (.pending i), .inHands i⟩ := rfl

variable (hkey : keyOf env = some key)
include hkey

theorem move_send :
    move ⟨i, .chSend env, .sent⟩ = some ⟨key, some (.fresh i), .channel⟩ := by simp [move, hkey]

theorem move_receive :
    move ⟨i, .chRecv, .received (.received env)⟩ = some ⟨key, some .channel, .inHands i⟩ := by
  simp [move, hkey]

theorem move_requeue :
    move ⟨i, .chTrySend env, .sent⟩ = some ⟨key, some (.inHands i), .channel⟩ := by
  simp [move, hkey]

theorem move_drop :
    move ⟨i, .chTrySend env, .blocked⟩ = some ⟨key, some (.inHands i), .dropped⟩ := by
  simp [move, hkey]

end

theorem move_chRecv {i : ℕ} {r : GetResult V} (hr : ∀ env, r ≠ .received (.received env)) :
    move (⟨i, .chRecv, r⟩ : Logged (Reply V)) = none := by
  cases r with
  | cancelled err => rfl
  | received r =>
    cases r with
    | received env => exact absurd rfl (hr env)
    | blocked => rfl
    | closed => rfl

/-- From where to where goroutine `i` moves envelopes. -/
inductive Transfer (i : ℕ) : Option Place → Place → Prop
  | number : Transfer i none (.fresh i)
  | send : Transfer i (some (.fresh i)) .channel
  | receive : Transfer i (some .channel) (.inHands i)
  | store : Transfer i (some (.inHands i)) (.pending i)
  | ack : Transfer i (some (.pending i)) .acked
  | take : Transfer i (some (.pending i)) (.inHands i)
  | requeue : Transfer i (some (.inHands i)) .channel
  | drop : Transfer i (some (.inHands i)) .dropped

theorem transfer_of_move {ev : Logged (Reply V)} {m : Move String Place} (hm : move ev = some m) :
    Transfer ev.tid m.source m.target := by
  unfold move at hm
  split at hm
  · cases hm; exact .number
  · obtain ⟨key, -, rfl⟩ := Option.map_eq_some_iff.1 hm; exact .send
  · obtain ⟨key, -, rfl⟩ := Option.map_eq_some_iff.1 hm; exact .receive
  · cases hm; exact .store
  · cases hm; exact .ack
  · cases hm; exact .take
  · obtain ⟨key, -, rfl⟩ := Option.map_eq_some_iff.1 hm; exact .requeue
  · obtain ⟨key, -, rfl⟩ := Option.map_eq_some_iff.1 hm; exact .drop
  · cases hm

/-- A goroutine does not take envelopes from another one, nor gives it any. -/
theorem Transfer.of_ne {i j : ℕ} {source : Option Place} {p target : Place}
    (ht : Transfer j source target) (hp : p.owner = some i) (hj : j ≠ i) :
    source ≠ some p ∧ target ≠ p := by
  cases ht <;> constructor <;> rintro ⟨⟩ <;> simp_all [Place.owner]

/-! ### Goroutines -/

/-- The envelopes in the hands of goroutine `i`: the one with the given key, or none. -/
def Hands (i : ℕ) (held : Option String) (h : History (Reply V)) : Prop :=
  ∀ key, locate move key h = some (.inHands i) ↔ held = some key

/-- What a goroutine has to do with an envelope. -/
inductive Phase
  /-- nothing -/
  | free
  /-- it has taken a number for it -/
  | fresh (id : String)
  /-- it has taken it from the channel or from the pending set -/
  | holding (key : String)
  /-- it has stored it -/
  | keeping (key : String)

/-- Goroutine `i` is in a phase. -/
def InPhase (i : ℕ) : Phase → History (Reply V) → Prop
  | .free, h => Hands i none h
  | .fresh id, h => Hands i none h ∧ locate move id h = some (.fresh i)
  | .holding key, h => Hands i (some key) h
  | .keeping key, h => Hands i none h ∧ locate move key h = some (.pending i)

variable {i : ℕ} {h : History (Reply V)}

/-- What others do does not change what a goroutine has. -/
theorem locate_of_others {h' : History (Reply V)} (hlegal : Legal move h') (ho : Others i h h')
    {p : Place} (hp : p.owner = some i) (key : String) :
    locate move key h' = some p ↔ locate move key h = some p := by
  obtain ⟨l, rfl, hl⟩ := ho
  exact locate_append hlegal fun ev hev m hm => (transfer_of_move hm).of_ne hp (hl ev hev)

theorem InPhase.others {ph : Phase} {h' : History (Reply V)} (hph : InPhase i ph h)
    (hlegal : Legal move h') (ho : Others i h h') : InPhase i ph h' := by
  have hhands : ∀ held, Hands i held h → Hands i held h' := fun held hh key =>
    (locate_of_others hlegal ho rfl key).trans (hh key)
  cases ph with
  | free => exact hhands _ hph
  | holding key => exact hhands _ hph
  | fresh id => exact ⟨hhands _ hph.1, (locate_of_others hlegal ho rfl id).2 hph.2⟩
  | keeping key => exact ⟨hhands _ hph.1, (locate_of_others hlegal ho rfl key).2 hph.2⟩

variable {ev : Logged (Reply V)} {m : Move String Place}

theorem InPhase.quiet {ph : Phase} (hph : InPhase i ph h) (hev : move ev = none) :
    InPhase i ph (ev :: h) := by
  have hhands : ∀ held, Hands i held h → Hands i held (ev :: h) := fun held hh key => by
    rw [locate_cons_of_none hev]
    exact hh key
  cases ph with
  | free => exact hhands _ hph
  | holding key => exact hhands _ hph
  | fresh id => exact ⟨hhands _ hph.1, (locate_cons_of_none hev).trans hph.2⟩
  | keeping key => exact ⟨hhands _ hph.1, (locate_cons_of_none hev).trans hph.2⟩

/-- A goroutine with empty hands takes an envelope. -/
theorem Hands.take (hh : Hands i none h) (hev : move ev = some m)
    (htarget : m.target = .inHands i) : Hands i (some m.item) (ev :: h) := by
  intro key
  by_cases hkey : key = m.item
  · subst hkey
    rw [locate_cons_self hev, htarget]
    exact iff_of_true rfl rfl
  · rw [locate_cons_of_ne hev hkey]
    exact iff_of_false (fun hloc => by simpa using (hh key).1 hloc) (by simpa using Ne.symm hkey)

/-- A goroutine gives away the envelope it has, or has none and takes none. -/
theorem Hands.release {held : Option String} (hh : Hands i held h) (hev : move ev = some m)
    (htarget : m.target ≠ .inHands i) (hheld : ∀ key, held = some key → key = m.item) :
    Hands i none (ev :: h) := by
  intro key
  by_cases hkey : key = m.item
  · subst hkey
    rw [locate_cons_self hev]
    simpa using htarget
  · rw [locate_cons_of_ne hev hkey, hh key]
    exact iff_of_false (fun hk => hkey (hheld key hk)) (by simp)

/-- The newest event of goroutine `i`. -/
def newest (i : ℕ) (h : History (Reply V)) : Option (Logged (Reply V)) :=
  h.find? fun ev => ev.tid = i

omit [Typed V] [MemoryIDStamp V] in
theorem newest_of_others {h' : History (Reply V)} (ho : Others i h h') : newest i h' = newest i h :=
  ho.induct (P := fun h' => newest i h' = newest i h)
    (fun _ _ hne hP => (List.find?_cons_of_neg (by simpa using hne)).trans hP) rfl

/-- The phase of a goroutine at each step.  A call that has found no room returns an error. -/
def phasePre (i : ℕ) : Cmd V → History (Reply V) → Prop
  | .loadClosed, _ => True
  | .swapClosed, _ => False
  | .closeCh, _ => False
  | .chSend env, h => ∃ key, keyOf env = some key ∧ InPhase i (.fresh key) h
  | .store key env, h => keyOf env = some key ∧ InPhase i (.holding key) h
  | .delete _ key, h => InPhase i (.keeping key) h
  | .chTrySend env, h => ∃ key, keyOf env = some key ∧ InPhase i (.holding key) h
  | .respond _ _ err, h => InPhase i .free h ∧
      ∀ env, newest i h = some ⟨i, .chTrySend env, .blocked⟩ → err ≠ none
  | _, h => Hands i none h

/-! ### The channel and the pending set -/

/-- The channel holds the envelopes that were moved there, each under its own key. -/
structure ChannelInv (buf : List (Envelope V)) (h : History (Reply V)) : Prop where
  keyed : none ∉ buf.map keyOf
  nodup : (buf.map keyOf).Nodup
  located : ∀ key, some key ∈ buf.map keyOf ↔ locate move key h = some .channel

/-- The pending set holds the envelopes that were moved there. -/
structure PendingInv (pending : String → Option (Envelope V)) (h : History (Reply V)) : Prop where
  stored : ∀ key env, pending key = some env → keyOf env = some key
  located : ∀ key, (pending key).isSome = true ↔ ∃ i, locate move key h = some (.pending i)

/-- All keys are numbers from the counter. -/
def Numbered (t₀ taken : ℕ) (h : History (Reply V)) : Prop :=
  ∀ key p, locate move key h = some p → ∃ n, t₀ < n ∧ n ≤ taken ∧ key = formatUint (n % 2 ^ 64)

/-- The transport is open and holds what was moved to it. -/
structure KeyInv (t₀ : ℕ) {cap : ℕ} (s : World V cap) (h : History (Reply V)) : Prop where
  opened : s.closed = false ∧ s.ch.closed = false
  started : t₀ ≤ s.taken
  channel : ChannelInv s.ch.buf h
  pending : PendingInv s.pending h
  numbered : Numbered t₀ s.taken h

section Moved

variable (hev : move ev = some m)
include hev

theorem ChannelInv.pop {env : Envelope V} {rest : List (Envelope V)}
    (hc : ChannelInv (env :: rest) h) (htarget : m.target ≠ .channel)
    (hkey : keyOf env = some m.item) : ChannelInv rest (ev :: h) := by
  obtain ⟨hkeyed, hnodup, hlocated⟩ := hc
  rw [List.map_cons, hkey] at hkeyed hnodup
  obtain ⟨hnew, hnodup⟩ := List.nodup_cons.1 hnodup
  refine ⟨fun hnone => hkeyed (List.mem_cons_of_mem _ hnone), hnodup, fun key => ?_⟩
  by_cases hk : key = m.item
  · rw [hk, locate_cons_self hev]
    exact iff_of_false hnew (by simpa using htarget)
  · rw [locate_cons_of_ne hev hk, ← hlocated key, List.map_cons, hkey, List.mem_cons]
    exact (or_iff_right (by simpa using hk)).symm

theorem PendingInv.store {pending : String → Option (Envelope V)} (hp : PendingInv pending h)
    (htarget : m.target = .pending i) {env : Envelope V} (hkey : keyOf env = some m.item) :
    PendingInv (Function.update pending m.item (some env)) (ev :: h) := by
  constructor
  · intro key env' hpending
    by_cases hk : key = m.item
    · subst hk
      rw [Function.update_self] at hpending
      cases hpending
      exact hkey
    · rw [Function.update_of_ne hk] at hpending
      exact hp.stored key env' hpending
  · intro key
    by_cases hk : key = m.item
    · rw [hk, Function.update_self, locate_cons_self hev, htarget]
      exact iff_of_true rfl ⟨i, rfl⟩
    · rw [Function.update_of_ne hk, locate_cons_of_ne hev hk]
      exact hp.located key

theorem PendingInv.delete {pending : String → Option (Envelope V)} (hp : PendingInv pending h)
    (htarget : ∀ i, m.target ≠ .pending i) :
    PendingInv (Function.update pending m.item none) (ev :: h) := by
  constructor
  · intro key env' hpending
    by_cases hk : key = m.item
    · simp [hk] at hpending
    · rw [Function.update_of_ne hk] at hpending
      exact hp.stored key env' hpending
  · intro key
    by_cases hk : key = m.item
    · rw [hk, Function.update_self, locate_cons_self hev]
      exact iff_of_false (by simp) fun ⟨i, hi⟩ => htarget i (Option.some_inj.1 hi)
    · rw [Function.update_of_ne hk, locate_cons_of_ne hev hk]
      exact hp.located key

variable (hitem : locate move m.item h = m.source)
include hitem

theorem ChannelInv.other {buf : List (Envelope V)} (hc : ChannelInv buf h)
    (hsource : m.source ≠ some .channel) (htarget : m.target ≠ .channel) :
    ChannelInv buf (ev :: h) :=
  ⟨hc.keyed, hc.nodup,
    fun key => (hc.located key).trans (locate_cons_iff hev hitem hsource htarget).symm⟩

theorem ChannelInv.push {buf : List (Envelope V)} (hc : ChannelInv buf h)
    (hsource : m.source ≠ some .channel) (htarget : m.target = .channel) {env : Envelope V}
    (hkey : keyOf env = some m.item) : ChannelInv (buf ++ [env]) (ev :: h) := by
  have hnew : some m.item ∉ buf.map keyOf := by rwa [hc.located, hitem]
  constructor
  · simpa [hkey] using hc.keyed
  · rw [List.map_append, List.map_singleton, hkey, ← List.concat_eq_append]
    exact hc.nodup.concat hnew
  · intro key
    rw [List.map_append, List.mem_append, List.map_singleton, hkey, List.mem_singleton,
      Option.some_inj]
    by_cases hk : key = m.item
    · rw [hk, locate_cons_self hev, htarget]
      exact iff_of_true (Or.inr rfl) rfl
    · rw [locate_cons_of_ne hev hk, hc.located]
      exact or_iff_left hk

theorem PendingInv.other {pending : String → Option (Envelope V)} (hp : PendingInv pending h)
    (hsource : ∀ i, m.source ≠ some (.pending i)) (htarget : ∀ i, m.target ≠ .pending i) :
    PendingInv pending (ev :: h) :=
  ⟨hp.stored, fun key => (hp.located key).trans
    (exists_congr fun i => (locate_cons_iff hev hitem (hsource i) (htarget i)).symm)⟩

theorem Numbered.moved {t₀ taken : ℕ} (hn : Numbered t₀ taken h) (hsource : m.source ≠ none) :
    Numbered t₀ taken (ev :: h) := by
  intro key p hp
  by_cases hk : key = m.item
  · obtain ⟨p', hp'⟩ := Option.ne_none_iff_exists'.1 hsource
    exact hk ▸ hn m.item p' (hitem.trans hp')
  · rw [locate_cons_of_ne hev hk] at hp
    exact hn key p hp

end Moved

theorem Numbered.next {t₀ taken : ℕ} (hn : Numbered t₀ taken h) (ht : t₀ ≤ taken)
    (hev : move ev = some m) (hitem : m.item = formatUint ((taken + 1) % 2 ^ 64)) :
    Numbered t₀ (taken + 1) (ev :: h) := by
  intro key p hp
  by_cases hk : key = m.item
  · exact ⟨taken + 1, by omega, le_rfl, hk.trans hitem⟩
  · rw [locate_cons_of_ne hev hk] at hp
    obtain ⟨n, hlow, hle, heq⟩ := hn key p hp
    exact ⟨n, hlow, by omega, heq⟩

/-- The number taken is new, as long as the counter has not gone round. -/
theorem Numbered.fresh {t₀ taken : ℕ} (hn : Numbered t₀ taken h) (ht : taken + 1 ≤ t₀ + 2 ^ 64) :
    locate move (formatUint ((taken + 1) % 2 ^ 64)) h = none := by
  by_contra hloc
  obtain ⟨p, hp⟩ := Option.ne_none_iff_exists'.1 hloc
  obtain ⟨n, hlow, hle, heq⟩ := hn _ p hp
  have hmod := formatUint_injective heq
  omega

variable {t₀ cap : ℕ} {s s' : World V cap}

theorem KeyInv.quiet (hi : KeyInv t₀ s h) (hev : move ev = none) (hclosed : s'.closed = s.closed)
    (hch : s'.ch.closed = s.ch.closed) (hbuf : s'.ch.buf = s.ch.buf)
    (hpending : s'.pending = s.pending) (htaken : s'.taken = s.taken) : KeyInv t₀ s' (ev :: h) := by
  have hloc : ∀ key, locate move key (ev :: h) = locate move key h :=
    fun key => locate_cons_of_none hev
  obtain ⟨hopened, hstarted, ⟨hkeyed, hnodup, hchannel⟩, ⟨hstored, hpend⟩, hnumbered⟩ := hi
  refine ⟨hclosed ▸ hch ▸ hopened, htaken ▸ hstarted, hbuf ▸ ⟨hkeyed, hnodup, ?_⟩,
    hpending ▸ ⟨hstored, ?_⟩, htaken ▸ ?_⟩
  · simpa only [hloc] using hchannel
  · simpa only [hloc] using hpend
  · simpa only [Numbered, hloc] using hnumbered

theorem KeyInv.deliver (hi : KeyInv t₀ s h) {key : String} {p : Place}
    (hev : move ev = some ⟨key, some p, .channel⟩) (hitem : locate move key h = some p)
    (hp : p.owner = some i) (hpending : ∀ j, p ≠ .pending j) {env : Envelope V}
    (hkey : keyOf env = some key) :
    KeyInv t₀ (⟨⟨s.ch.buf ++ [env], s.ch.closed, s.ch.waiting⟩, s.pending, s.closed, s.taken⟩ :
      World V cap) (ev :: h) where
  opened := hi.opened
  started := hi.started
  channel := hi.channel.push hev hitem (fun hc => by cases hc; cases hp) rfl hkey
  pending := hi.pending.other hev hitem (fun j hj => hpending j (Option.some_inj.1 hj)) (by simp)
  numbered := hi.numbered.moved hev hitem (by simp)

/-- What goroutine `i` moves is where it takes it from. -/
theorem KeyInv.legal (hi : KeyInv t₀ s h) {e : Cmd V} (hpre : phasePre i e h) (o : Choice V)
    (ht : (exec e o s).2.taken ≤ t₀ + 2 ^ 64) (hm : move ⟨i, e, (exec e o s).1⟩ = some m) :
    locate move m.item h = m.source := by
  cases e with
  | nextID =>
    cases hm
    exact hi.numbered.fresh ht
  | chSend env =>
    obtain ⟨key, hkey, hphase⟩ := hpre
    rcases s.ch.send_cases env with ⟨-, heq⟩ | ⟨-, -, heq⟩ | ⟨-, -, heq⟩
    all_goals simp only [exec, heq, move, hkey] at hm; cases hm
    exact hphase.2
  | chTrySend env =>
    obtain ⟨key, hkey, hphase⟩ := hpre
    rcases s.ch.send_cases env with ⟨-, heq⟩ | ⟨-, -, heq⟩ | ⟨-, -, heq⟩
    all_goals simp only [exec, heq, move, hkey] at hm; cases hm
    all_goals exact (hphase key).2 rfl
  | chRecv =>
    rcases chRecv_cases o s with ⟨env, rest, hbuf, heq⟩ | ⟨r, ch, hr, heq, -, -⟩
    · rw [heq] at hm
      obtain ⟨key, hkey, rfl⟩ := Option.map_eq_some_iff.1 hm
      exact (hi.channel.located key).1 (List.mem_map.2 ⟨env, by simp [hbuf], hkey⟩)
    · rw [heq, move_chRecv hr] at hm
      cases hm
  | store key env =>
    cases hm
    exact (hpre.2 key).2 rfl
  | delete how key =>
    cases how <;> cases hm <;> exact hpre.2
  | _ => cases hm

/-- An envelope is moved that neither was nor is in the channel. -/
theorem KeyInv.moved (hi : KeyInv t₀ s h) (hev : move ev = some m)
    (hitem : locate move m.item h = m.source) {p : Place} (hp : m.source = some p)
    (hsource : p ≠ .channel) (htarget : m.target ≠ .channel)
    {pending : String → Option (Envelope V)}
    (hpending : PendingInv pending (ev :: h)) :
    KeyInv t₀ { s with pending := pending } (ev :: h) where
  opened := hi.opened
  started := hi.started
  channel := hi.channel.other hev hitem (by simpa [hp] using hsource) htarget
  pending := hpending
  numbered := hi.numbered.moved hev hitem (by simp [hp])

theorem KeyInv.exec (hi : KeyInv t₀ s h) {e : Cmd V} (hpre : phasePre i e h) (o : Choice V)
    (hlegal : ∀ m, move ⟨i, e, (exec e o s).1⟩ = some m → locate move m.item h = m.source) :
    KeyInv t₀ (exec e o s).2 (⟨i, e, (exec e o s).1⟩ :: h) := by
  cases e with
  | nextID =>
    have hitem := hlegal _ (move_nextID _)
    exact ⟨hi.opened, hi.started.trans (Nat.le_succ _),
      hi.channel.other (move_nextID _) hitem (by simp) (by simp),
      hi.pending.other (move_nextID _) hitem (by simp) (by simp),
      hi.numbered.next hi.started (move_nextID _) rfl⟩
  | chSend env =>
    obtain ⟨key, hkey, hphase⟩ := hpre
    rcases s.ch.send_cases env with ⟨-, heq⟩ | ⟨-, -, heq⟩ | ⟨-, -, heq⟩
    all_goals simp only [MemoryTransport.exec, heq]
    · exact hi.quiet rfl rfl rfl rfl rfl rfl
    · exact hi.deliver (move_send hkey) hphase.2 rfl (by simp) hkey
    · exact hi.quiet rfl rfl rfl rfl rfl rfl
  | chTrySend env =>
    obtain ⟨key, hkey, hphase⟩ := hpre
    have hitem : locate move key h = some (.inHands i) := (hphase key).2 rfl
    rcases s.ch.send_cases env with ⟨-, heq⟩ | ⟨-, -, heq⟩ | ⟨-, -, heq⟩
    all_goals simp only [MemoryTransport.exec, heq]
    · exact hi.quiet rfl rfl rfl rfl rfl rfl
    · exact hi.deliver (move_requeue hkey) hitem rfl (by simp) hkey
    · exact hi.moved (move_drop hkey) hitem rfl (by simp) (by simp)
        (hi.pending.other (move_drop hkey) hitem (by simp) (by simp))
  | chRecv =>
    rcases chRecv_cases o s with ⟨env, rest, hbuf, heq⟩ | ⟨r, ch, hr, heq, hbuf, hclosed⟩
    · obtain ⟨key, hkey⟩ : ∃ key, keyOf env = some key := Option.ne_none_iff_exists'.1 fun hnone =>
        hi.channel.keyed (List.mem_map.2 ⟨env, by simp [hbuf], hnone⟩)
      rw [heq] at hlegal ⊢
      have hitem := hlegal _ (move_receive hkey)
      exact ⟨hi.opened, hi.started, (hbuf ▸ hi.channel).pop (move_receive hkey) (by simp) hkey,
        hi.pending.other (move_receive hkey) hitem (by simp) (by simp),
        hi.numbered.moved (move_receive hkey) hitem (by simp)⟩
    · rw [heq]
      exact hi.quiet (move_chRecv hr) rfl hclosed hbuf rfl rfl
  | store key env =>
    exact hi.moved (move_store env) (hlegal _ (move_store env)) rfl (by simp) (by simp)
      (hi.pending.store (move_store env) rfl hpre.1)
  | delete how key =>
    cases how with
    | ack =>
      exact hi.moved move_ack (hlegal _ move_ack) rfl (by simp) (by simp)
        (hi.pending.delete move_ack (by simp))
    | reject =>
      exact hi.moved move_take (hlegal _ move_take) rfl (by simp) (by simp)
        (hi.pending.delete move_take (by simp))
  | swapClosed => exact hpre.elim
  | closeCh => exact hpre.elim
  | _ => exact hi.quiet rfl rfl rfl rfl rfl rfl

end

end WolfCore.Messenger.MemoryTransport
