import Mathlib.Algebra.BigOperators.Group.List.Basic
import Mathlib.Algebra.GroupWithZero.Nat
import TimedTasks.Proofs.Blank
import TimedTasks.Proofs.March
import TimedTasks.Proofs.Proper

/-!
# What is left to do

Two measures say how much is left of what is in progress. Of the operations of handlers and interrupts that begin nothing
it is how many are still to be called, by those that came already or are armed (`Act.load`), and how much is left of the
one at hand (`Act.toil`): every step of theirs leaves less (`Machine.Next.wanes`).

Of a run that was asked to end it is the way that its round and the end of its session still have before them
(`Act.rank`): what is left of the queue, of the dispatch at hand and of the end. Each of its own steps leaves less, and
nothing that happens in between, whatever it is, makes it longer (`View.Turn.rank_lt`, `View.Later.rank_le`).
-/

namespace TimedTasks

/-! ## Operations -/

mutual

/-- How many operations come of this one: itself, and those of the interrupts that it arms. -/
def Op.load : Op → Nat
  | .hook _ _ body => Op.loads body + 2
  | .on _ op => op.load + 1
  | _ => 2

/-- How many operations come of those of a handler or an interrupt. -/
def Op.loads : List Op → Nat
  | [] => 0
  | op :: ops => op.load + 1 + Op.loads ops

end

theorem Op.two_le_load (op : Op) : 2 ≤ op.load := by
  induction op using Op.load.induct (motive_2 := fun _ => True) with
  | case1 => simp [load]
  | case2 e op ih => rw [load]; omega
  | case3 op _ other =>
    cases op with
    | on e op => exact (other e op rfl).elim
    | _ => simp [load]
  | case4 => trivial
  | case5 => trivial

namespace Act

/-- How many operations are still to come of the act. -/
def load : Act → Nat
  | perform _ op => op.load
  | block _ ops => Op.loads ops
  | interrupts _ bodies => (bodies.map Op.loads).sum
  | locked (.enroll _) => 1
  | _ => 0

/-- How much is left of the operation that the act is part of. -/
def toil : Act → Nat
  | reading (.start ..) | reading (.expired ..) | reading (.info _) => 4
  | reading (.remaining ..) => 7
  | reading (.elapsed ..) => 10
  | locked (.dataLength ..) => 12
  | locked (.claim _ left) => 3 * left + 3
  | locked _ => 2
  | claiming _ left => 3 * left + 2
  | block .. | answered _ => 1
  | interrupts _ bodies => 2 * bodies.length + 1
  | _ => 0

/-- How much is left of a round, or of the end of a run. A round goes along the roster, in an arena of `size` slots. -/
def rank (size : Nat) (roster : List Nat) : Act → Nat
  | checkCache => 8 * size + 13
  | reading (.cached ..) => 8 * size + 12
  | survey _ => 8 * size + 5
  | walking _ (some i) => 8 * (size - roster.idxOf i) + 4
  | walking _ none => 4
  | reading (.due ..) => 7
  | dispatch _ => 6
  | reading (.renew _) => 5
  | locked (.fetch _) => 3
  | reading .scan => 3
  | locked (.adopt ..) => 2
  | handling .. | settle _ | sleeping _ | round | deadline _ => 1
  | running => 5
  | locked .endSession => 4
  | closing _ => 3
  | locked (.sessionOver _) => 2
  | _ => 0

theorem rank_of_minor {a : Act} {size : Nat} {roster : List Nat} (h : a.minor) : a.rank size roster = 0 := by
  cases a with
  | reading r => cases r <;> first | rfl | cases h
  | locked s => cases s <;> first | rfl | cases h
  | _ => first | rfl | cases h

/-- The act is what a run has come to: it goes on with its rounds, or with the end of the session. -/
def ofRun : Act → Bool
  | running | locked .endSession | closing _ | locked (.sessionOver _) => true
  | _ => false

/-- The act is part of a round, or of what follows it in a run, but not the call itself. -/
def ofRound : Act → Bool
  | reading (.cached ..) | reading (.due ..) | reading .scan | reading (.renew _) => true
  | locked (.adopt ..) | locked (.fetch _) => true
  | sleeping _ | round | checkCache | survey _ | walking .. | dispatch _ | handling .. | settle _ | deadline _ => true
  | _ => false

/-- The act is part of a run. -/
def winds (a : Act) : Bool := a.ofRound || a.ofRun

/-- More tasks at the end of the roster do not make the way of a round longer. -/
theorem rank_append {a : Act} {size : Nat} {roster more : List Nat}
    (cursor : ∀ skip i, a = walking skip (some i) → i ∈ roster) : a.rank size (roster ++ more) = a.rank size roster := by
  cases a with
  | walking skip c =>
    cases c with
    | none => rfl
    | some i => rw [rank, rank, List.idxOf_append_of_mem (cursor skip i rfl)]
  | reading r => cases r <;> rfl
  | locked s => cases s <;> rfl
  | _ => rfl

end Act

namespace Board

/-- How many operations are still to come of the interrupts that are armed. -/
def load (b : Board) : Nat := (b.interrupts.map fun i => Op.loads i.body).sum

def toil (b : Board) : Nat := 2 * b.interrupts.length

end Board

/-- What holds of a list in two parts. -/
theorem sum_filter_add {α : Type} (p : α → Bool) (f : α → Nat) (l : List α) :
    ((l.filter fun a => !p a).map f).sum + ((l.filter p).map f).sum = (l.map f).sum := by
  induction l with
  | nil => rfl
  | cons a l ih =>
    cases h : p a
    · simp [h]; omega
    · simp [h]; omega

namespace Board

@[simp] theorem load_readClock (b : Board) : b.readClock.2.load = b.load := rfl

@[simp] theorem toil_readClock (b : Board) : b.readClock.2.toil = b.toil := rfl

/-- A call takes the interrupts that are due off the board. -/
theorem load_called (b : Board) (call : BoardCall) :
    (b.called call).1.load + ((b.called call).2.map Op.loads).sum = b.load ∧
      (b.called call).1.toil + 2 * (b.called call).2.length = b.toil := by
  unfold called
  split
  · have body : ∀ i : Interrupt, (i.passed call).body = i.body := fun i => by unfold Interrupt.passed; split <;> rfl
    have loads := sum_filter_add (·.due call) (fun i => Op.loads i.body) b.interrupts
    have counts := List.length_eq_length_filter_add (l := b.interrupts) (·.due call)
    simp only [load, toil, List.map_map, Function.comp_def, body, List.length_map]
    omega
  · simp

end Board

section

variable {w : World} {δ : Device} {act : Act} {t : Stride} {size : Nat} {roster : List Nat}

/-- The call on the board in which a step ends brings no operations that were not armed, and one more frame. -/
theorem Stride.load_frames (t : Stride) :
    (t.frames.map Act.load).sum + t.device.board.load = (t.acts.map Act.load).sum + t.board.load ∧
      (t.frames.map Act.toil).sum + t.device.board.toil =
        (t.acts.map Act.toil).sum + t.board.toil + if t.call.isSome then 1 else 0 := by
  unfold frames device
  cases t.call with
  | none => simp
  | some call =>
    have called := t.board.load_called call
    simp only [List.map_cons, List.sum_cons, Act.load, Act.toil, Option.isSome_some, if_true]
    omega

/-- What begins nothing leaves fewer operations to come, or less of the one at hand. -/
theorem Leads.wanes (l : Leads w δ act t) (minor : act.minor) (other : ∀ r, act = .reading r → r.asks = false) :
    (t.frames.map Act.load).sum + t.device.board.load < act.load + δ.board.load ∨
      ((t.frames.map Act.load).sum + t.device.board.load = act.load + δ.board.load ∧
        (t.frames.map Act.toil).sum + t.device.board.toil < act.toil + δ.board.toil) := by
  rw [t.load_frames.1, t.load_frames.2]
  have two : ∀ op : Op, 0 + δ.board.load < op.load + δ.board.load := fun op => by
    have := op.two_le_load
    omega
  cases l with
  | init | run | tick => cases minor
  | asked r | told r => rw [other _ rfl] at r; cases r
  | answer | start | update | stop | alloc | info | advance | setNow => exact .inl (two _)
  | hook => left; simp [Act.load, Op.load, Board.load, Board.arm]; omega
  | ask ask => left; cases ask <;> simp [Act.load, Op.load]
  | blockEnd => right; simp [Act.load, Act.toil, Op.loads]
  | blockNext => left; simp [Act.load, Op.loads]
  | interruptsNext => right; simp [Act.load, Act.toil]; omega
  | @refused sec _ refuses =>
    cases sec with
    | enroll => left; simp [Act.load]
    | declare | configure | attach | write => right; simp [Act.load, Act.toil]
    | _ => cases refuses
  | @lengthAsked i row r asks => right; cases r <;> first | cases asks; done | (simp [Act.load, Act.toil]; omega)
  | enrolled => left; simp [Act.load]
  | @unclaimed i left => right; simp [Act.load, Act.toil]
  | stamp | claiming => right; simp [Act.load, Act.toil]; omega
  | _ => first | (cases minor; done) | (right; simp [Act.load, Act.toil])

end

/-! ## Queries -/

namespace World

variable {w : World} {d i : Nat} {δ : Device} {now : UInt32} {row : TaskRow} {r r' : Reading} {move : Move}

theorem toil_askExpired (h : w.askExpired d δ i row = .ok move) (m : ⟨d, .reading r'⟩ ∈ move.frames) :
    (Act.reading r').toil ≤ 4 := by
  obtain ⟨found, -, h⟩ := bind_eq_ok.1 h
  split at h
  · cases h
    simp [answering, leaving] at m
  · split at h
    · cases h
      simp only [calling, leaving, List.map_cons, List.map_nil, List.mem_cons, Frame.mk.injEq, reduceCtorEq, and_false,
        Act.reading.injEq, true_and, List.not_mem_nil, or_false, false_or] at m
      subst m
      exact Nat.le_refl _
    · cases h
      simp [answering, leaving] at m

theorem toil_askRemaining (h : w.askRemaining d δ i row = .ok move) (m : ⟨d, .reading r'⟩ ∈ move.frames) :
    (Act.reading r').toil ≤ 7 := by
  obtain ⟨found, -, h⟩ := bind_eq_ok.1 h
  split at h
  · exact Nat.le_trans (toil_askExpired h m) (by decide)
  · split at h
    · cases h
      simp only [calling, leaving, List.map_cons, List.map_nil, List.mem_cons, Frame.mk.injEq, reduceCtorEq, and_false,
        Act.reading.injEq, true_and, List.not_mem_nil, or_false, false_or] at m
      subst m
      exact Nat.le_refl _
    · exact Nat.le_trans (toil_askExpired h m) (by decide)

/-- The readings of a query come in one order. -/
theorem toil_resume (h : w.resume d δ now r = .ok move) (asks : r.asks) (m : ⟨d, .reading r'⟩ ∈ move.frames) :
    (Act.reading r').toil + 3 ≤ (Act.reading r).toil := by
  cases r with
  | elapsed => exact Nat.add_le_add_right (toil_askRemaining h m) 3
  | remaining => exact Nat.add_le_add_right (toil_askExpired h m) 3
  | expired =>
    cases h
    simp [answering, leaving] at m
  | info =>
    obtain ⟨row, -, h⟩ := bind_eq_ok.1 h
    cases h
    simp [answering, leaving] at m
  | _ => cases asks

end World

/-! ## Machines -/

theorem sum_map_set {α : Type} (f : α → Nat) {l : List α} {i : Nat} {a : α} (b : α) (found : l[i]? = some a) :
    ((l.set i b).map f).sum + f a = (l.map f).sum + f b := by
  induction l generalizing i with
  | nil => cases found
  | cons c l ih =>
    cases i with
    | zero =>
      cases found
      simp only [List.set_cons_zero, List.map_cons, List.sum_cons]
      omega
    | succ i =>
      have rest := ih found
      simp only [List.set_cons_succ, List.map_cons, List.sum_cons]
      omega

namespace Machine

/-- What is counted of acts and boards, over the whole stack and all devices. -/
def total (acts : Act → Nat) (boards : Board → Nat) (m : Machine) : Nat :=
  (m.stack.map (acts ·.act)).sum + (m.world.devices.toList.map (boards ·.board)).sum

/-- How many operations are still to come. -/
def load : Machine → Nat := total Act.load Board.load

/-- How much is left of the operations in progress. -/
def toil : Machine → Nat := total Act.toil Board.toil

variable {m m' : Machine} {d : Nat} {act : Act} {t : Stride} {rest : List Frame} {δ : Device} {f : Frame}

theorem Takes.total (takes : m.Takes m' d t rest) (acts : Act → Nat) (boards : Board → Nat)
    (top : m.stack = ⟨d, act⟩ :: rest) (found : m.world.devices[d]? = some δ) :
    m'.total acts boards + (acts act + boards δ.board) =
      m.total acts boards + ((t.frames.map acts).sum + boards t.device.board) := by
  have devices := sum_map_set (boards ·.board) (l := m.world.devices.toList) t.device (by simpa using found)
  simp only [Machine.total, takes.stack, takes.devices, top, Array.toList_setIfInBounds, List.map_append, List.map_map,
    List.sum_append, List.map_cons, List.sum_cons, Function.comp_def]
  rw [show (fun a => acts a) = acts from rfl]
  omega

/-- A step of what begins nothing leaves fewer operations to come, or less of those in progress. -/
theorem Next.wanes (next : m.Next m') (top : m.stack = f :: rest) (minor : f.act.minor) :
    m'.load < m.load ∨ (m'.load = m.load ∧ m'.toil < m.toil) := by
  have dropped : ∀ {e : Nat} {a : Answer} {left : List Frame}, m.stack = ⟨e, .answered a⟩ :: left →
      m'.world.devices = m.world.devices → (left.map (Act.load ·.act)).sum = (m'.stack.map (Act.load ·.act)).sum →
      (left.map (Act.toil ·.act)).sum = (m'.stack.map (Act.toil ·.act)).sum →
      m'.load < m.load ∨ (m'.load = m.load ∧ m'.toil < m.toil) := by
    intro e a left stack devices load toil
    have own : (Act.answered a).load = 0 ∧ (Act.answered a).toil = 1 := ⟨rfl, rfl⟩
    right
    simp only [Machine.load, Machine.toil, Machine.total, stack, devices, List.map_cons, List.sum_cons, own, load, toil]
    omega
  cases next.turn with
  | works d act rest' δ t top' found l takes =>
    cases top.symm.trans top'
    have load := takes.total Act.load Board.load top found
    have toil := takes.total Act.toil Board.toil top found
    have stride := t.load_frames
    by_cases asks : ∃ r, act = .reading r ∧ r.asks = true
    · right
      obtain ⟨r, rfl, asks⟩ := asks
      obtain ⟨ε, move, -, moved, eq⟩ := next.moves top nofun nofun
      have frames : t.frames.map (⟨d, ·⟩) = move.frames := by
        have stack := takes.stack
        rw [eq] at stack
        exact (List.append_cancel_right stack).symm
      cases l with
      | @asked _ r' _ asks' =>
        have less : (Act.reading r').toil + 3 ≤ (Act.reading r).toil :=
          World.toil_resume moved asks (by rw [← frames]; simp [Stride.frames])
        have loads : ∀ {r : Reading}, (Act.reading r).load = 0 := rfl
        simp only [List.map_cons, List.map_nil, List.sum_cons, List.sum_nil, loads, Board.load_readClock, Board.toil_readClock,
          Option.isSome_some, if_true] at stride
        rw [loads] at load
        exact ⟨by simp only [Machine.load]; omega, by simp only [Machine.toil]; omega⟩
      | told =>
        have left : 3 < (Act.reading r).toil := by cases r <;> first | cases asks; done | simp [Act.toil]
        have loads : ∀ {r : Reading}, (Act.reading r).load = 0 := rfl
        have none : ∀ {a : Answer}, (Act.answered a).load = 0 ∧ (Act.answered a).toil = 1 := ⟨rfl, rfl⟩
        simp only [List.map_cons, List.map_nil, List.sum_cons, List.sum_nil, none, Board.load_readClock, Board.toil_readClock,
          Option.isSome_none, Bool.false_eq_true, if_false] at stride
        rw [loads] at load
        exact ⟨by simp only [Machine.load]; omega, by simp only [Machine.toil]; omega⟩
      | _ => cases asks
    · have other : ∀ r, act = .reading r → r.asks = false := fun r same =>
        Bool.eq_false_iff.2 fun asked => asks ⟨r, same, asked⟩
      rcases l.wanes minor other with less | ⟨same, less⟩
      · left; simp only [Machine.load]; omega
      · right; exact ⟨by simp only [Machine.load]; omega, by simp only [Machine.toil]; omega⟩
  | delivers d e ms act rest' δ t top' => cases top.symm.trans top'; cases minor
  | redirects d e self op rest' top' world stack =>
    left
    simp [Machine.load, Machine.total, top', world, stack, Act.load, Op.load]
  | answers d e a act rest' top' takes alike stack =>
    have idle : act.load = 0 ∧ act.toil = 0 := by cases act <;> first | cases takes; done | exact ⟨rfl, rfl⟩
    exact dropped top' alike.devices (by simp [stack, idle]) (by simp [stack, idle])
  | finishes d a top' world stack => exact dropped top' (by rw [world]) (by simp [stack]) (by simp [stack])
  | calls d op top' => cases top.symm.trans top'

end Machine

/-! ## Rounds, and the ends of runs -/

namespace Act

variable {a : Act} {size : Nat} {roster roster' : List Nat}

theorem rank_of_still (still : a.walks = false) : a.rank size roster = a.rank size roster' := by
  cases a with
  | walking skip c => cases still
  | reading r => cases r <;> rfl
  | locked s => cases s <;> rfl
  | _ => rfl

end Act

section

variable {w : World} {δ : Device} {act : Act} {t : Stride} {size : Nat} {roster roster' : List Nat}

/-- A round that is not followed by another one, and the end of a run, have less of their way before them with every
step. -/
theorem Leads.rank_lt (l : Leads w δ act t) (own : act.winds) (late : δ.scheduler.runState ≠ .active)
    (same : act.walks → roster' = roster) (cursor : ∀ skip i, act = .walking skip (some i) → roster.idxOf i < size)
    (onward : ∀ skip i u k, act = .walking skip (some i) → δ.scheduler.arena.slot i = .ok u → u.next = some k →
      roster.idxOf i < roster.idxOf k ∧ roster.idxOf k < size) :
    (t.frames.map (·.rank size roster')).sum < act.rank size roster := by
  have rises : ∀ {skip i u}, act = .walking skip (some i) → δ.scheduler.arena.slot i = .ok u →
      (Act.walking skip u.next).rank size roster + 7 < (Act.walking skip (some i)).rank size roster := by
    intro skip i u walk found
    have here := cursor skip i walk
    cases next : u.next with
    | none => simp only [Act.rank]; omega
    | some k =>
      obtain ⟨lt, bound⟩ := onward skip i u k walk found next
      simp only [Act.rank]
      omega
  cases l with
  | anotherRound active => exact absurd active late
  | dueFirst =>
    simp only [Stride.frames, List.map_cons, List.map_nil, List.sum_cons, List.sum_nil, Act.rank]
    omega
  | surveyed =>
    rw [same rfl]
    cases δ.scheduler.queue.head with
    | none => simp [Stride.frames, Act.rank]
    | some i =>
      simp only [Stride.frames, List.map_cons, List.map_nil, List.sum_cons, List.sum_nil, Act.rank]
      omega
  | looked _ found =>
    have less := rises rfl found
    rw [same rfl]
    simpa [Stride.frames, Act.rank, Nat.add_comm] using less
  | passed _ found =>
    have less := rises rfl found
    rw [same rfl]
    simp only [Stride.frames, List.map_cons, List.map_nil, List.sum_cons, List.sum_nil]
    omega
  | @asked r _ asks | @told r _ asks => cases r <;> first | cases asks; done | cases own
  | @refused sec _ refuses => cases sec <;> first | cases refuses; done | cases own
  | _ => first | (cases own; done) | simp [Stride.frames, Act.rank]

/-- All else comes to nothing that is on such a way, unless it begins a run. -/
theorem Leads.rank_eq_zero (l : Leads w δ act t) (other : act.winds = false) (late : δ.scheduler.runState ≠ .active)
    (begun : ∀ self, act = .perform self .run → δ.scheduler.runState = .stopped ∨ δ.scheduler.inRound = true) :
    (t.frames.map (·.rank size roster)).sum = 0 := by
  cases l with
  | tick active => exact absurd active late
  | @run self some idle =>
    rcases begun self rfl with stopped | busy
    · exact absurd stopped some
    · cases idle.symm.trans busy
  | ask ask => cases ask <;> rfl
  | asked _ asks | lengthAsked asks =>
    simp only [Stride.frames, List.map_cons, List.map_nil, List.sum_cons, List.sum_nil, Act.rank_of_minor (Act.minor_of_asks asks)]
    rfl
  | _ => first | (cases other; done) | rfl

theorem Delivers.rank_lt {ms : Option UInt32} (l : Delivers δ ms act t) (late : δ.scheduler.runState ≠ .active) :
    (t.frames.map (·.rank size roster)).sum < act.rank size roster + 1 := by
  cases l with
  | sleeping active => exact absurd active late
  | _ => simp [Stride.frames, Act.rank]

end

namespace View

variable {v v' : View}

/-- What is left of a round, and of the end of a run. -/
def rank (v : View) : Nat := (v.acts.map (·.rank v.scheduler.arena.size v.roster)).sum

theorem Turn.size_eq (t : Turn v v') : v'.scheduler.arena.size = v.scheduler.arena.size := by
  cases t with
  | works acts l => simpa [take, scheduler] using l.size_eq
  | delivers acts l => cases l <;> simp [take, scheduler]

/-- Whatever is in progress on a device is at the same place of its way when the roster changes. -/
theorem Ordered.rank_eq {a : Act} {size : Nat} (h : v.Ordered) (sound : v.Sound) (t : Turn v v') (m : a ∈ v.acts) :
    a.rank size v'.roster = a.rank size v.roster := by
  by_cases busy : .round ∈ v.acts
  · obtain ⟨more, grows⟩ := h.roster_grows sound busy t
    rw [grows]
    exact Act.rank_append fun skip i same => h.marches.cursor skip i (same ▸ m)
  · refine Act.rank_of_still (Bool.eq_false_iff.2 fun walks => ?_)
    have still := sound.column.no_turns busy a m
    rw [Act.turns_of_walks walks] at still
    cases still

/-- With no round to follow and no run to begin, every step of a round, and of the end of a run, leaves less of its way. -/
theorem Turn.rank_lt (t : Turn v v') (h : v.Ordered) (sound : v.Sound) (late : v.scheduler.runState ≠ .active)
    (begun : ∀ self rest, v.acts = .perform self .run :: rest → v.scheduler.runState = .stopped ∨ v.scheduler.inRound = true) :
    v'.rank ≤ v.rank ∧ ∀ a ∈ v.acts.head?, a.winds → v'.rank < v.rank := by
  have size := t.size_eq
  have kept : ∀ rest : List Act, (∀ a ∈ rest, a ∈ v.acts) →
      (rest.map (·.rank v.scheduler.arena.size v'.roster)).sum = (rest.map (·.rank v.scheduler.arena.size v.roster)).sum :=
    fun rest known => congrArg List.sum (List.map_congr_left fun a m => h.rank_eq sound t (known a m))
  have listed := h.roster_turn sound t
  cases t with
  | @works w act s _ rest acts l =>
    have top : act ∈ v.acts := acts ▸ List.mem_cons_self
    have below := kept rest fun a m => acts ▸ List.mem_cons_of_mem _ m
    rw [rank, rank, size, acts]
    simp only [take, List.map_append, List.sum_append, List.map_cons, List.sum_cons] at below ⊢
    rw [below]
    cases own : act.winds with
    | false =>
      have none : (s.frames.map (·.rank v.scheduler.arena.size (take s rest (v.past.after v.clock act s)).roster)).sum = 0 :=
        l.rank_eq_zero own late fun self same => begun self rest (same ▸ acts)
      simp only [take] at none
      refine ⟨by omega, fun a ma winds => ?_⟩
      cases ma
      rw [own] at winds
      cases winds
    | true =>
      have holds := h.enrolled.holds
      have short := holds.length_le
      have place : ∀ {i}, i ∈ v.roster → v.roster.idxOf i < v.scheduler.arena.size := fun m =>
        Nat.lt_of_lt_of_le (List.idxOf_lt_length_iff.2 m) short
      have less : (s.frames.map (·.rank v.scheduler.arena.size (take s rest (v.past.after v.clock act s)).roster)).sum <
          act.rank v.scheduler.arena.size v.roster := by
        refine l.rank_lt own late (fun walks => ?_)
          (fun skip i walk => place (h.marches.cursor skip i (walk ▸ top))) fun skip i u k walk found next => ?_
        · rw [listed, enlist, acts]
          cases act <;> first | rfl | cases walks
        · have here := h.marches.cursor skip i (walk ▸ top)
          have slot : v.scheduler.arena[i]? = some u := Arena.slot_eq_ok_iff.1 found
          obtain ⟨mk, lt⟩ := holds.chain.idxOf_lt_of_link holds.nodup here (k := k) (by simp [Arena.link, slot, next])
          exact ⟨lt, place mk⟩
      simp only [take] at less
      exact ⟨by omega, fun _ _ _ => by omega⟩
  | @delivers ms act s _ rest acts l =>
    have below := kept rest fun a m => acts ▸ List.mem_cons_of_mem _ (List.mem_cons_of_mem _ m)
    have own : act.rank v.scheduler.arena.size (take s rest v.past).roster = act.rank v.scheduler.arena.size v.roster :=
      h.rank_eq sound (.delivers acts l) (by simp [acts])
    have less : (s.frames.map (·.rank v.scheduler.arena.size (take s rest v.past).roster)).sum <
        act.rank v.scheduler.arena.size (take s rest v.past).roster + 1 := l.rank_lt late
    have one : ∀ {size : Nat} {roster : List Nat}, (Act.deadline ms).rank size roster = 1 := rfl
    rw [rank, rank, size, acts]
    simp only [take, List.map_append, List.sum_append, List.map_cons, List.sum_cons, one] at below own less ⊢
    rw [below]
    exact ⟨by omega, fun _ _ _ => by omega⟩

theorem Shift.rank_le (t : Shift v v') : v'.rank ≤ v.rank := by
  cases t with
  | drops acts _ =>
    rw [rank, rank, acts, List.map_cons, List.sum_cons]
    exact Nat.le_add_left _ _
  | arrives self op => exact Nat.le_of_eq (Nat.zero_add _)

/-- Nothing that happens makes that way longer. -/
theorem Later.rank_le (later : v.Later v') (h : v.Ordered) (sound : v.Sound) (late : v.scheduler.runState ≠ .active)
    (begun : ∀ self rest, v.acts = .perform self .run :: rest → v.scheduler.runState = .stopped ∨ v.scheduler.inRound = true) :
    v'.rank ≤ v.rank := by
  rcases later with t | shifts
  · exact (t.rank_lt h sound late begun).1
  · clear h sound late begun
    induction shifts with
    | refl => exact Nat.le_refl _
    | tail _ shift ih => exact Nat.le_trans shift.rank_le ih

end View

end TimedTasks
