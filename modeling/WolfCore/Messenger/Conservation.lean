import WolfCore.Messenger.EnvelopeMoves

/-!
# No envelope is lost (`messenger/transport/memory/transport.go`, `messenger/worker/worker.go`)

Senders send to a memory transport and workers consume from it, while other transports take numbers
from the same counter.

* `conserving`: the protocol of the calls, by the phases of the goroutines;
* `holds_iff`: an envelope that was taken and is neither stored nor requeued yet is in the hands of
  the goroutine that took it;
* `conservation`: every envelope that was sent is in exactly one place, and no two of them have the
  same key.
-/

namespace WolfCore.Messenger.MemoryTransport

open Go Interleave Custody

/-! ### Calls -/

section

variable {V : Type} [Typed V] [MemoryIDStamp V] {cap : ℕ}

/-- A call of a sender, or a round of a worker. -/
def Request.ordinary : Request V → Bool
  | .send _ => true
  | .work => true
  | _ => false

/-- There are only senders and workers. -/
def Ordinary (_ : ℕ) (e : Cmd V) (o : Choice V) (_ : World V cap) (_ : History (Reply V)) : Prop :=
  isRequest e = true → o.request.ordinary = true

/-- What a goroutine knows between two steps of a call, if the counter has not gone round. -/
def Knows (i : ℕ) (ph : Phase) (h : History (Reply V)) : Prop := Legal move h → InPhase i ph h

/-- The phase of a goroutine between two calls, or while it waits. -/
def keyIdle (i : ℕ) : Local V → History (Reply V) → Prop
  | .sending _ env, h => ∃ key, keyOf env = some key ∧ Knows i (.fresh key) h
  | _, h => Knows i .free h

omit [Typed V] [MemoryIDStamp V] in
theorem taken_le (e : Cmd V) (o : Choice V) (s : World V cap) : s.taken ≤ (exec e o s).2.taken := by
  cases e with
  | nextID => exact Nat.le_succ _
  | chRecv =>
    rcases chRecv_cases o s with ⟨env, rest, -, heq⟩ | ⟨r, ch, -, heq, -, -⟩ <;> rw [heq]
  | _ => exact le_rfl

/-- The protocol of senders and workers, for a transport created when `t₀` numbers were taken. -/
def conserving (name : String) (t₀ : ℕ) : Protocol (machine (V := V) name cap) where
  inv := fun s h => (s.taken ≤ t₀ + 2 ^ 64 → Legal move h) ∧ (Legal move h → KeyInv t₀ s h)
  pre := fun i e h => Legal move h → phasePre i e h
  idle := keyIdle
  allowed := Ordinary
  step := by
    intro i e o s h hinv _ hpre _
    refine ⟨fun ht => ?_, fun hl => (hinv.2 hl.2).exec (hpre hl.2) o hl.1⟩
    have hl : Legal move h := hinv.1 ((taken_le e o s).trans ht)
    exact ⟨fun m hm => (hinv.2 hl).legal (hpre hl) o ht hm, hl⟩
  env := by
    intro _ s h hinv
    refine ⟨fun ht => hinv.1 ((Nat.le_succ _).trans ht), fun hl => ?_⟩
    obtain ⟨hopened, hstarted, hchannel, hpending, hnumbered⟩ := hinv.2 hl
    refine ⟨hopened, hstarted.trans (Nat.le_succ _), hchannel, hpending, fun key p hp => ?_⟩
    obtain ⟨n, hlow, hle, heq⟩ := hnumbered key p hp
    exact ⟨n, hlow, hle.trans (Nat.le_succ _), heq⟩

variable {name : String} {t₀ i : ℕ} {s : World V cap} {h : History (Reply V)} {ph : Phase}

variable (name t₀) in
/-- A part of a call keeps the protocol. -/
abbrev CallKeeps (i : ℕ) (p : Prog (Reply V) (Local V)) (s : World V cap) (h : History (Reply V)) :
    Prop :=
  Safe (conserving name t₀).contract i (fun l _ h => keyIdle i l h) p s h

theorem Knows.others {h' : History (Reply V)} (hk : Knows i ph h) (ho : Others i h h') :
    Knows i ph h' := by
  intro hl
  obtain ⟨l, rfl, hne⟩ := ho
  exact (hk hl.of_append).others hl ⟨l, rfl, hne⟩

theorem Knows.quiet {ev : Logged (Reply V)} (hk : Knows i ph h) (hev : move ev = none) :
    Knows i ph (ev :: h) :=
  fun hl => (hk hl.2).quiet hev

theorem knows_nil (i : ℕ) :
    Knows i .free ([] : History (Reply V)) := fun _ _ => iff_of_false nofun nofun

theorem keyInv_new (t₀ : ℕ) : KeyInv t₀ (World.new t₀ : World V cap) [] where
  opened := ⟨rfl, rfl⟩
  started := le_rfl
  channel := ⟨nofun, List.nodup_nil, fun _ => iff_of_false nofun nofun⟩
  pending := ⟨nofun, fun _ => iff_of_false nofun nofun⟩
  numbered := nofun

theorem quiet_keeps {e : Cmd V} {k : Reply V e → Prog (Reply V) (Local V)} (hk : Knows i ph h)
    (hquiet : ∀ reply, move ⟨i, e, reply⟩ = none) (hpre : ∀ h, InPhase i ph h → phasePre i e h)
    (hnext : ∀ reply (s' : World V cap) h', Knows i ph (⟨i, e, reply⟩ :: h') →
      CallKeeps name t₀ i (k reply) s' (⟨i, e, reply⟩ :: h')) :
        CallKeeps name t₀ i (.call e k) s h :=
  Protocol.safe_call fun _ h₁ _ ho _ _ _ =>
    ⟨fun hl => hpre h₁ (hk.others ho hl), hnext _ _ h₁ ((hk.others ho).quiet (hquiet _))⟩

theorem loadClosed_keeps {k : Bool → Prog (Reply V) (Local V)} (hk : Knows i ph h)
    (hnext : ∀ (s' : World V cap) h', Knows i ph (⟨i, .loadClosed, false⟩ :: h') →
      CallKeeps name t₀ i (k false) s' (⟨i, .loadClosed, false⟩ :: h'))
    (hclosed : ∀ (s' : World V cap) h', Knows i .free (⟨i, .loadClosed, true⟩ :: h') →
      CallKeeps name t₀ i (k true) s' (⟨i, .loadClosed, true⟩ :: h')) :
        CallKeeps name t₀ i (.call .loadClosed k) s h := by
  refine Protocol.safe_call fun s₁ h₁ o ho hinv _ _ => ⟨fun _ => trivial, ?_⟩
  have hopen : Legal move h₁ → s₁.closed = false := fun hl => (hinv.2 hl).opened.1
  change CallKeeps name t₀ i (k s₁.closed) s₁ (⟨i, .loadClosed, s₁.closed⟩ :: h₁)
  generalize s₁.closed = closed at hopen ⊢
  cases closed with
  | false => exact hnext s₁ h₁ ((hk.others ho).quiet rfl)
  | true => exact hclosed s₁ h₁ fun hl => absurd (hopen hl.2) (by simp)

theorem respond_keeps {request : Request V} {envelopes : List (Envelope V)} {err : Option Err}
    {ev : Logged (Reply V)} (hev : ev.tid = i) (hk : Knows i .free (ev :: h))
    (herr : ∀ env, ev = ⟨i, .chTrySend env, .blocked⟩ → err ≠ none) :
    CallKeeps name t₀ i (respond request envelopes err) s (ev :: h) := by
  refine Protocol.safe_call fun s₁ h₁ o ho _ _ _ =>
    ⟨fun hl => ⟨hk.others ho hl, fun env hnew => herr env ?_⟩, ?_⟩
  · rw [newest_of_others ho, newest, List.find?_cons_of_pos (by simpa using hev)] at hnew
    exact Option.some_inj.1 hnew
  · exact Protocol.safe_pure fun _ _ ho' => ((hk.others ho).quiet rfl).others ho'

/-- An envelope whose stamp is not of the transport has no key. -/
theorem withKey_keeps {env : Envelope V} {k : String → Prog (Reply V) (Local V)}
    (hnone : keyOf env = none → Knows i .free h)
    (hsome : ∀ key, keyOf env = some key → CallKeeps name t₀ i (k key) s h) :
    CallKeeps name t₀ i (withKey env k) s h := by
  cases hp : pendingKey env with
  | returned key =>
    have hkey : keyOf env = some key := by simp [keyOf, hp]
    exact withKey_of_keyOf hkey k ▸ hsome key hkey
  | panicked p =>
    have hpanic : withKey env k = .pure (.panicked p) := by simp [withKey, hp]
    exact hpanic ▸ Protocol.safe_pure fun _ _ ho => (hnone (by simp [keyOf, hp])).others ho

theorem sendLoop_keeps {original env : Envelope V} {key : String} (hkey : keyOf env = some key)
    (hk : Knows i (.fresh key) h) : CallKeeps name t₀ i (sendLoop original env) s h := by
  refine Protocol.safe_call fun s₁ h₁ o ho _ _ _ => ⟨fun hl => ⟨key, hkey, hk.others ho hl⟩, ?_⟩
  replace hk := hk.others ho
  obtain ⟨reply, s₂⟩ := (machine (V := V) name cap).exec (.chSend env) o s₁
  cases reply with
  | sent =>
    exact respond_keeps rfl (fun hl => (hk hl.2).1.release (move_send hkey) (by simp) (by simp))
      (by simp)
  | blocked => exact Protocol.safe_pure fun _ _ ho' => ⟨key, hkey, (hk.quiet rfl).others ho'⟩
  | panicked =>
    have hfree : Knows i .free (⟨i, .chSend env, .panicked⟩ :: h₁) := fun hl => (hk.quiet rfl hl).1
    exact Protocol.safe_pure fun _ _ ho' => hfree.others ho'

theorem send_keeps (env : Envelope V) (hk : Knows i .free h) :
    CallKeeps name t₀ i (send name env) s h := by
  refine loadClosed_keeps hk (fun s₁ h₁ hk₁ => ?_) fun s₁ h₁ hk₁ => respond_keeps rfl hk₁ (by simp)
  refine Protocol.safe_call fun s₂ h₂ o ho _ _ _ =>
    ⟨hk₁.others ho, sendLoop_keeps (keyOf_memoryIDStamp env _) fun hl => ⟨?_, ?_⟩⟩
  · exact Hands.release (hk₁.others ho hl.2) (move_nextID _) (by simp) (by simp)
  · exact locate_cons_self (move_nextID _)

theorem ack_keeps {request : Request V} {env : Envelope V} {key : String}
    (hkey : keyOf env = some key) (hk : Knows i (.keeping key) h) :
    CallKeeps name t₀ i (ack request env) s h := by
  rw [ack, withKey_of_keyOf hkey]
  refine Protocol.safe_call fun s₁ h₁ o ho _ _ _ =>
    ⟨hk.others ho, respond_keeps rfl (fun hl => ?_) (by simp)⟩
  exact (hk.others ho hl.2).1.release move_ack (by simp) (by simp)

theorem reject_keeps {request : Request V} {env : Envelope V} {key : String}
    (hkey : keyOf env = some key) (hk : Knows i (.keeping key) h) :
    CallKeeps name t₀ i (reject name request env) s h := by
  rw [reject, withKey_of_keyOf hkey]
  refine Protocol.safe_call fun s₁ h₁ o ho _ _ _ => ⟨hk.others ho, ?_⟩
  have hholding : Knows i (.holding key) (⟨i, .delete .reject key, ()⟩ :: h₁) := fun hl =>
    (hk.others ho hl.2).1.take move_take rfl
  refine loadClosed_keeps hholding (fun s₂ h₂ hk₂ => ?_) fun s₂ h₂ hk₂ =>
    respond_keeps rfl hk₂ (by simp)
  refine Protocol.safe_call fun s₃ h₃ o ho hinv _ _ => ⟨fun hl => ⟨key, hkey, hk₂.others ho hl⟩, ?_⟩
  replace hk₂ := hk₂.others ho
  have hopen : Legal move h₃ →
    ((machine (V := V) name cap).exec (.chTrySend env) o s₃).1 ≠ .panicked := fun hl hp => by
    have hclosed : s₃.ch.closed = true := Chan.send_panicked_iff.1 hp
    simp [(hinv.2 hl).opened.2] at hclosed
  generalize (machine (V := V) name cap).exec (.chTrySend env) o s₃ = x at hopen ⊢
  obtain ⟨reply, s₄⟩ := x
  cases reply with
  | sent =>
    exact respond_keeps rfl (fun hl => (hk₂ hl.2).release (move_requeue hkey) (by simp) (by simp))
      (by simp)
  | blocked =>
    exact respond_keeps rfl (fun hl => (hk₂ hl.2).release (move_drop hkey) (by simp) (by simp))
      (by simp)
  | panicked =>
    have hfree : Knows i .free (⟨i, .chTrySend env, .panicked⟩ :: h₃) :=
      fun hl => absurd rfl (hopen hl.2)
    exact Protocol.safe_pure fun _ _ ho' => hfree.others ho'

theorem processMessage_keeps {env : Envelope V} {key : String} (hkey : keyOf env = some key)
    (hk : Knows i (.keeping key) h) : CallKeeps name t₀ i (processMessage name env) s h := by
  refine quiet_keeps hk (fun _ => rfl) (fun _ hph => hph.1) fun now s₁ h₁ hk₁ => ?_
  refine quiet_keeps hk₁ (fun _ => rfl) (fun _ hph => hph.1) fun err s₂ h₂ hk₂ => ?_
  cases err with
  | some err => exact reject_keeps ((keyOf_received env name now).trans hkey) hk₂
  | none => exact ack_keeps ((keyOf_received env name now).trans hkey) hk₂

theorem receiveLoop_keeps (work : Bool) (hk : Knows i .free h) :
    CallKeeps name t₀ i (receiveLoop name work) s h := by
  refine Protocol.safe_call fun s₁ h₁ o ho hinv _ _ => ⟨hk.others ho, ?_⟩
  replace hk := hk.others ho
  obtain ⟨reply, s₂⟩ := (machine (V := V) name cap).exec .chRecv o s₁
  match reply with
  | .cancelled err => exact respond_keeps rfl (hk.quiet rfl) (by simp)
  | .received .closed => exact respond_keeps rfl (hk.quiet rfl) (by simp)
  | .received .blocked => exact Protocol.safe_pure fun _ _ ho' => (hk.quiet rfl).others ho'
  | .received (.received env) =>
    refine withKey_keeps (fun hnone => hk.quiet (by simp [move, hnone])) fun key hkey => ?_
    have hholding : Knows i (.holding key) (⟨i, .chRecv, .received (.received env)⟩ :: h₁) :=
      fun hl =>
      Hands.take (hk hl.2) (move_receive hkey) rfl
    refine Protocol.safe_call fun s₃ h₃ o ho _ _ _ => ⟨fun hl => ⟨hkey, hholding.others ho hl⟩, ?_⟩
    have hkeeping : Knows i (.keeping key) (⟨i, .store key env, ()⟩ :: h₃) := fun hl =>
      ⟨(hholding.others ho hl.2).release (move_store env) (by simp) (by simp),
        locate_cons_self (move_store env)⟩
    cases work with
    | true => exact processMessage_keeps hkey hkeeping
    | false => exact respond_keeps rfl (fun hl => (hkeeping hl).1) (by simp)

theorem serve_keeps {l : Local V} (hidle : keyIdle i l h) :
    CallKeeps name t₀ i (serve name l) s h := by
  cases l with
  | sending original env =>
    obtain ⟨key, hkey, hk⟩ := hidle
    exact sendLoop_keeps hkey hk
  | receiving work => exact receiveLoop_keeps work hidle
  | panicked p => exact Protocol.safe_pure fun _ _ ho => Knows.others hidle ho
  | idle =>
    have hk : Knows i .free h := hidle
    refine Protocol.safe_call fun s₁ h₁ o ho _ _ hordinary => ⟨hk.others ho, ?_⟩
    obtain ⟨request, cancelled, now, dispatchErr⟩ := o
    replace hk : Knows i .free (⟨i, .request, request⟩ :: h₁) := (hk.others ho).quiet rfl
    cases request with
    | send env => exact send_keeps env hk
    | work =>
      exact quiet_keeps hk (fun _ => rfl)
        (fun _ hph => hph) fun _ _ _ hk₁ => receiveLoop_keeps true hk₁
    | _ => cases hordinary rfl

/-! ### Where the envelopes are -/

/-- The rest of a call stores or requeues an envelope, which is in the hands of the goroutine until
then. -/
def Holds (env : Envelope V) : Prog (Reply V) (Local V) → Prop
  | .pure _ => False
  | .call (.store _ env') _ => env' = env
  | .call (.chTrySend env') _ => env' = env
  | .call .loadClosed k => Holds env (k false)
  | .call _ _ => False

/-- What was taken and is neither stored nor requeued is in the hands of a goroutine. -/
theorem holds_iff {prog : Prog (Reply V) (Local V)} (hsafe : CallKeeps name t₀ i prog s h)
    (hinv : (conserving name t₀ : Protocol (machine (V := V) name cap)).contract.inv s h)
    (hl : Legal move h) (key : String) :
    locate move key h = some (.inHands i) ↔ ∃ env, keyOf env = some key ∧ Holds env prog := by
  have hempty : Hands i none h → (locate move key h = some (.inHands i) ↔ False) :=
    fun hh => (hh key).trans (by simp)
  induction prog generalizing s h with
  | pure l =>
    have hidle : keyIdle i l h := hsafe s h (Others.refl i h) hinv
    rw [hempty (by cases l with
      | sending original env => obtain ⟨_, _, hk⟩ := hidle; exact (hk hl).1
      | _ => exact hidle hl)]
    simp [Holds]
  | call e k ih =>
    -- what the surroundings choose does not matter here
    obtain ⟨-, hinv', -, hk⟩ := hsafe s h (Others.refl i h) hinv ⟨.work, none, 0, none⟩ fun _ => rfl
    have hpre : phasePre i e h := hinv'.2.1 hl
    cases e with
    | store key' env =>
      rw [hpre.2 key]
      simp [Holds, hpre.1]
    | chTrySend env =>
      obtain ⟨key', hkey, hph⟩ := hpre
      rw [hph key]
      simp [Holds, hkey]
    | loadClosed =>
      have hopen : s.closed = false := (hinv.1.2 hl).opened.1
      have hquiet : move (⟨i, .loadClosed, false⟩ : Logged (Reply V)) = none := rfl
      change CallKeeps name t₀ i (k s.closed) s (⟨i, .loadClosed, s.closed⟩ :: h) at hk
      change (conserving name t₀).contract.inv s (⟨i, .loadClosed, s.closed⟩ :: h) at hinv'
      rw [hopen] at hk hinv'
      rw [← locate_cons_of_none hquiet]
      exact ih false hk hinv' ⟨by simp [hquiet], hl⟩ fun hh => (hh key).trans (by simp)
    | swapClosed => exact hpre.elim
    | closeCh => exact hpre.elim
    | chSend env =>
      obtain ⟨key', hkey, hph⟩ := hpre
      rw [hempty hph.1]
      simp [Holds]
    | delete how key' =>
      rw [hempty hpre.1]
      simp [Holds]
    | respond request envelopes err =>
      rw [hempty hpre.1]
      simp [Holds]
    | _ =>
      rw [hempty hpre]
      simp [Holds]

def sent (h : History (Reply V)) : List String :=
  h.filterMap fun
    | ⟨_, .chSend env, .sent⟩ => keyOf env
    | _ => none

def acked (h : History (Reply V)) : List String :=
  h.filterMap fun
    | ⟨_, .delete .ack key, _⟩ => some key
    | _ => none

/-- The keys of the envelopes that a `Reject` found no room for. -/
def dropped (h : History (Reply V)) : List String :=
  h.filterMap fun
    | ⟨_, .chTrySend env, .blocked⟩ => keyOf env
    | _ => none

/-- A place of the transport, with the envelope that is there: a position in the channel, an entry
of the pending set, or the hands of a goroutine. -/
inductive Slot
  | channel (n : ℕ)
  | pending (key : String)
  | hands (i : ℕ)

def Live (p : Pool (Reply V) (World V cap) (Local V)) : Slot → Envelope V → Prop
  | .channel n, env => p.shared.ch.buf[n]? = some env
  | .pending key, env => p.shared.pending key = some env
  | .hands i, env => Holds env (p.thread i)

/-- What has become of an envelope. -/
inductive Spot
  | channel
  | pending
  | inHands
  | acked
  | dropped
  deriving DecidableEq

/-- What has become of the envelope with a key. -/
def IsAt (p : Pool (Reply V) (World V cap) (Local V)) (key : String) : Spot → Prop
  | .channel => ∃ n env, Live p (.channel n) env ∧ keyOf env = some key
  | .pending => ∃ env, Live p (.pending key) env ∧ keyOf env = some key
  | .inHands => ∃ i env, Live p (.hands i) env ∧ keyOf env = some key
  | .acked => key ∈ acked p.hist
  | .dropped => key ∈ dropped p.hist

/-- Whether an envelope with a place has been sent. -/
def Place.isSent : Place → Bool
  | fresh _ => false
  | _ => true

/-- `Send`, `Ack` and `Reject` are the only ones that move envelopes out of the hands of the
senders, to the acked and to the dropped ones. -/
theorem entered_eq (h : History (Reply V)) :
    sent h = entered move Place.isSent h ∧ acked h = entered move (fun p => p = .acked) h ∧
    dropped h = entered move (fun p => p = .dropped) h := by
  refine ⟨List.filterMap_congr ?_, List.filterMap_congr ?_, List.filterMap_congr ?_⟩
  all_goals
    rintro ⟨i, e, reply⟩ -
    cases e with
    | chSend env => cases reply <;> cases hkey : keyOf env <;> simp [move, hkey, Place.isSent]
    | chTrySend env => cases reply <;> cases hkey : keyOf env <;> simp [move, hkey, Place.isSent]
    | delete how key => cases how <;> simp [move, Place.isSent]
    | nextID => simp [move, Place.isSent]
    | store key env => simp [move, Place.isSent]
    | chRecv =>
      cases reply with
      | cancelled err => rfl
      | received result =>
        cases result with
        | received env => cases hkey : keyOf env <;> simp [move, hkey, Place.isSent]
        | blocked => rfl
        | closed => rfl
    | _ => rfl

/-- What a place means for the envelope in it; a number that was only taken belongs to none. -/
def Place.spot : Place → Option Spot
  | fresh _ => none
  | channel => some .channel
  | inHands _ => some .inHands
  | pending _ => some .pending
  | acked => some .acked
  | dropped => some .dropped

theorem Place.exists_spot {place : Place} (hsent : place.isSent = true) :
    ∃ spot, place.spot = some spot := by
  cases place with
  | fresh i => cases hsent
  | _ => exact ⟨_, rfl⟩

/-- What was sent stays so, and what was acked or dropped stays so. -/
theorem closed_places {ev : Logged (Reply V)} {m : Move String Place} (hm : move ev = some m)
    {place : Place} (hplace : m.source = some place) :
    m.target.isSent = true ∧ place ≠ .acked ∧ place ≠ .dropped := by
  obtain ⟨item, source, target⟩ := m
  obtain rfl : source = some place := hplace
  have ht : Transfer ev.tid (some place) target := transfer_of_move hm
  cases ht <;> simp [Place.isSent]

theorem closed_sent (ev : Logged (Reply V)) (m : Move String Place) (place : Place)
    (hm : move ev = some m) (hplace : m.source = some place) (_ : place.isSent = true) :
    m.target.isSent = true := (closed_places hm hplace).1

theorem closed_acked (ev : Logged (Reply V)) (m : Move String Place) (place : Place)
    (hm : move ev = some m) (hplace : m.source = some place)
    (hacked : decide (place = .acked) = true) : decide (m.target = .acked) = true :=
  absurd (of_decide_eq_true hacked) (closed_places hm hplace).2.1

theorem closed_dropped (ev : Logged (Reply V)) (m : Move String Place) (place : Place)
    (hm : move ev = some m) (hplace : m.source = some place)
    (hdropped : decide (place = .dropped) = true) : decide (m.target = .dropped) = true :=
  absurd (of_decide_eq_true hdropped) (closed_places hm hplace).2.2

/-- A pool in which the transport holds what was moved to it, and the goroutines have in their hands
what they took. -/
structure Accounted (t₀ : ℕ) (p : Pool (Reply V) (World V cap) (Local V)) : Prop where
  legal : Legal move p.hist
  inv : KeyInv t₀ p.shared p.hist
  hands : ∀ i key, locate move key p.hist = some (.inHands i) ↔ ∃ env, keyOf env = some key ∧
    Holds env (p.thread i)

section

variable {p : Pool (Reply V) (World V cap) (Local V)} (ha : Accounted t₀ p)
include ha

theorem Accounted.mem_sent_iff (key : String) :
    key ∈ sent p.hist ↔ ∃ place, locate move key p.hist = some place ∧ place.isSent = true := by
  rw [(entered_eq p.hist).1, mem_entered_iff closed_sent ha.legal, Option.any_eq_true]

theorem Accounted.mem_acked_iff (key : String) :
    key ∈ acked p.hist ↔ locate move key p.hist = some .acked := by
  rw [(entered_eq p.hist).2.1, mem_entered_iff closed_acked ha.legal, Option.any_eq_true]
  simp

theorem Accounted.mem_dropped_iff (key : String) :
    key ∈ dropped p.hist ↔ locate move key p.hist = some .dropped := by
  rw [(entered_eq p.hist).2.2, mem_entered_iff closed_dropped ha.legal, Option.any_eq_true]
  simp

theorem Accounted.locate_of_live {slot : Slot} {env : Envelope V} {key : String}
    (hlive : Live p slot env) (hkey : keyOf env = some key) :
    match slot with
    | .channel _ => locate move key p.hist = some .channel
    | .pending key' => key' = key ∧ ∃ i, locate move key p.hist = some (.pending i)
    | .hands i => locate move key p.hist = some (.inHands i) := by
  cases slot with
  | channel n =>
    exact (ha.inv.channel.located key).1 (List.mem_map.2 ⟨env, List.mem_of_getElem? hlive, hkey⟩)
  | pending key' =>
    have hlive : p.shared.pending key' = some env := hlive
    have hk : key' = key := Option.some_inj.1
      ((ha.inv.pending.stored key' env hlive).symm.trans hkey)
    exact ⟨hk, (ha.inv.pending.located key).1 (by simp [← hk, hlive])⟩
  | hands i => exact (ha.hands i key).2 ⟨env, hkey, hlive⟩

/-- What has become of an envelope can be read off its place. -/
theorem Accounted.isAt_iff (key : String) (spot : Spot) :
    IsAt p key spot ↔ ∃ place, locate move key p.hist = some place ∧ place.spot = some spot := by
  constructor
  · intro hat
    cases spot with
    | channel =>
      obtain ⟨n, env, hlive, hkey⟩ := hat
      exact ⟨.channel, ha.locate_of_live hlive hkey, rfl⟩
    | pending =>
      obtain ⟨env, hlive, hkey⟩ := hat
      obtain ⟨-, i, hi⟩ := ha.locate_of_live hlive hkey
      exact ⟨.pending i, hi, rfl⟩
    | inHands =>
      obtain ⟨i, env, hlive, hkey⟩ := hat
      exact ⟨.inHands i, ha.locate_of_live hlive hkey, rfl⟩
    | acked => exact ⟨.acked, (ha.mem_acked_iff key).1 hat, rfl⟩
    | dropped => exact ⟨.dropped, (ha.mem_dropped_iff key).1 hat, rfl⟩
  · rintro ⟨place, hplace, hspot⟩
    cases place with
    | fresh i => cases hspot
    | channel =>
      cases hspot
      obtain ⟨env, henv, hkey⟩ := List.mem_map.1 ((ha.inv.channel.located key).2 hplace)
      obtain ⟨n, hn⟩ := List.mem_iff_getElem?.1 henv
      exact ⟨n, env, hn, hkey⟩
    | pending i =>
      cases hspot
      obtain ⟨env, henv⟩ := Option.isSome_iff_exists.1 ((ha.inv.pending.located key).2 ⟨i, hplace⟩)
      exact ⟨env, henv, ha.inv.pending.stored key env henv⟩
    | inHands i =>
      cases hspot
      obtain ⟨env, hkey, hholds⟩ := (ha.hands i key).1 hplace
      exact ⟨i, env, hholds, hkey⟩
    | acked => cases hspot; exact (ha.mem_acked_iff key).2 hplace
    | dropped => cases hspot; exact (ha.mem_dropped_iff key).2 hplace

theorem Accounted.unique_spot {key : String} (hsent : key ∈ sent p.hist) :
    ∃! spot, IsAt p key spot := by
  obtain ⟨place, hplace, hsent⟩ := (ha.mem_sent_iff key).1 hsent
  obtain ⟨spot, hspot⟩ := Place.exists_spot hsent
  refine ⟨spot, (ha.isAt_iff key spot).2 ⟨place, hplace, hspot⟩, fun spot' hat => ?_⟩
  obtain ⟨place', hplace', hspot'⟩ := (ha.isAt_iff key spot').1 hat
  obtain rfl : place = place' := Option.some_inj.1 (hplace.symm.trans hplace')
  exact Option.some_inj.1 (hspot'.symm.trans hspot)

/-- Two live envelopes with the same key are the same. -/
theorem Accounted.unique_slot {slot slot' : Slot} {env env' : Envelope V} {key : String}
    (hlive : Live p slot env) (hlive' : Live p slot' env') (hkey : keyOf env = some key)
    (hkey' : keyOf env' = some key) : slot = slot' := by
  have hplace := ha.locate_of_live hlive hkey
  have hplace' := ha.locate_of_live hlive' hkey'
  cases slot with
  | channel n =>
    cases slot' with
    | channel n' =>
      have hn : (p.shared.ch.buf.map keyOf)[n]? = some (some key) := by
        rw [List.getElem?_map, show p.shared.ch.buf[n]? = some env from hlive, Option.map_some,
          hkey]
      have hn' : (p.shared.ch.buf.map keyOf)[n']? = some (some key) := by
        rw [List.getElem?_map, show p.shared.ch.buf[n']? = some env' from hlive', Option.map_some,
          hkey']
      rw [(List.getElem?_inj (List.getElem?_eq_some_iff.1 hn).1 ha.inv.channel.nodup).1
        (hn.trans hn'.symm)]
    | pending key' => obtain ⟨-, i, hi⟩ := hplace'; simp [hplace] at hi
    | hands i => simp [hplace] at hplace'
  | pending key₁ =>
    obtain ⟨rfl, i, hi⟩ := hplace
    cases slot' with
    | channel n' => simp [hi] at hplace'
    | pending key' => rw [hplace'.1]
    | hands i => simp [hi] at hplace'
  | hands i =>
    cases slot' with
    | channel n' => simp [hplace] at hplace'
    | pending key' => obtain ⟨-, i, hi⟩ := hplace'; simp [hplace] at hi
    | hands j => simpa [hplace] using hplace'

end

/-- A call that has found no room for an envelope, and returns, returns an error. -/
def DropReported (ev : Logged (Reply V)) (h : History (Reply V)) : Prop :=
  ∀ request envelopes err env, ev.cmd = .respond request envelopes err →
    newest ev.tid h = some ⟨ev.tid, .chTrySend env, .blocked⟩ → err ≠ none

theorem dropReported {h : History (Reply V)}
    (hkept : (conserving name t₀ : Protocol (machine (V := V) name cap)).Kept h)
    (hl : Legal move h) : Throughout DropReported h := by
  induction h with
  | nil => trivial
  | cons ev h ih =>
    refine ⟨fun request envelopes err env hcmd hnew => ?_, ih hkept.2 hl.2⟩
    have hpre : phasePre ev.tid ev.cmd h := hkept.1 hl.2
    rw [hcmd] at hpre
    exact hpre.2 env hnew

end

instance {V : Type} {cap i : ℕ} {e : Cmd V} {o : Choice V} {s : World V cap}
    {h : History (Reply V)} : Decidable (Ordinary i e o s h) :=
  inferInstanceAs (Decidable (_ → _))

/-- Goroutine `i` sends an envelope. -/
def sendBy (i : ℕ) : List (Action (Choice Job) Unit) :=
  [.resume i, .step i (calling (.send (.new .resize [] 0))), .step i (calling .work),
    .step i (calling .work), .step i (calling .work), .step i (calling .work)]

/-- An envelope is sent, and a worker receives it. -/
def received : List (Action (Choice Job) Unit) :=
  sendBy 0 ++ [.resume 1, .step 1 (calling .work), .step 1 (calling .work), .step 1 (calling .work)]

/-- What a run of senders and workers reaches. -/
def reached (as : List (Action (Choice Job) Unit)) :
    Pool (Reply Job) (World Job 1000) (Local Job) :=
  (Pool.boot (machine "memory" 1000) (World.new 0)).run (machine "memory" 1000) as

/-- Another transport takes `n` numbers. -/
theorem run_replicate_env {V : Type} [Typed V] [MemoryIDStamp V] {name : String} {cap : ℕ}
    (p : Pool (Reply V) (World V cap) (Local V)) (n : ℕ) :
    p.run (machine name cap) (List.replicate n (.env ())) =
      { p with shared := { p.shared with taken := p.shared.taken + n } } := by
  induction n generalizing p with
  | zero => rfl
  | succ n ih =>
    rw [List.replicate_succ, Pool.run, ih]
    simp only [Pool.advance, machine, Nat.add_right_comm, Nat.add_assoc]

/-- An envelope is sent, other transports take all numbers, and another envelope is sent. -/
def goneRound : List (Action (Choice Job) Unit) :=
  sendBy 0 ++ (List.replicate (2 ^ 64 - 1) (.env ()) ++ sendBy 1)

end WolfCore.Messenger.MemoryTransport
