import DyShard.State.DB

/-!
# The ledger: what a database shows its clients

A `DB` keeps an account in up to four places; its clients see one **cell** per address.  The ledger
is the map of the cells, and its operations return the journal entries they have logged.
-/

namespace DyShard.State

open Option Function Object

/-- An account as a client sees it: the storage as of the last transaction and as of
now. -/
structure Cell where
  nonce : UInt64
  balance : ℤ
  code : List UInt8
  stored : Word → Word
  current : Word → Word
  freeze : Bool
  suicided : Bool
  deleted : Bool

/-- The cell that shows an object. -/
def Object.cell (o : Object) : Cell where
  nonce := o.data.nonce
  balance := o.data.balance
  code := o.data.code
  stored := o.getCommittedState
  current := o.getState
  freeze := o.freeze
  suicided := o.suicided
  deleted := o.deleted

namespace Cell

/-- A new account. -/
def zero : Cell := (newObject .zero).cell

/-- Nothing is in the account. -/
def empty (c : Cell) : Bool := c.nonce == 0 && c.balance == 0 && c.code == []

/-- A write to the storage. -/
def setState (c : Cell) (key value : Word) : Cell :=
  { c with current := update c.current key value }

end Cell

section Objects

variable (o : Object)

@[simp] theorem cell_setBalance (x : ℤ) : (o.setBalance x).cell = { o.cell with balance := x } := rfl

theorem getState_setState (key value : Word) :
    (o.setState key value).getState = update o.getState key value := by
  funext k
  by_cases hk : k = key
  · subst hk
    simp [setState, getState]
  · simp [setState, getState, hk, getCommittedState]

@[simp] theorem cell_setState (key value : Word) :
    (o.setState key value).cell = o.cell.setState key value := by
  simp only [cell, getState_setState, Cell.setState]
  rfl

@[simp] theorem empty_cell : o.cell.empty = o.empty := rfl

end Objects

/-! ## The ledger and its operations -/

/-- The part of the state that a revert puts back. -/
structure Ledger where
  cells : Address → Option Cell
  dirties : Address → ℕ
  refund : UInt64
  logs : Word → List EventLog
  logSize : ℕ

/-- The part of the state that a revert leaves alone. -/
structure Kept (W : Type) where
  validators : Address → Option W
  keys : List Address
  forced : Address → ℕ
  thash : Word

/-- What an operation does: the ledger it leaves and the entries it logs. -/
abbrev Effect := Ledger × List (JournalEntry Cell)

namespace Ledger

variable (l : Ledger)

/-- The cell of an address, hiding deleted accounts. -/
def cell (a : Address) : Option Cell := (l.cells a).filter fun c => !c.deleted

/-- The dirty mark of an entry. -/
def mark (e : JournalEntry Cell) : Ledger :=
  { l with dirties := match e.dirtied with
      | some a => update l.dirties a (l.dirties a + 1)
      | none => l.dirties }

/-- A write of a cell. -/
def put (a : Address) (c : Cell) : Ledger :=
  { l with cells := update l.cells a (some c) }

/-- A journalled write of a cell. -/
def update (a : Address) (e : JournalEntry Cell) (c : Cell) : Effect :=
  ((l.mark e).put a c, [e])

/-- `createObject`: the entry it logs tells whether there was a cell before. -/
def creation (a : Address) : JournalEntry Cell :=
  match l.cells a with
  | none => .createObjectChange a
  | some prev => .resetObjectChange a prev

/-- The balance is carried over. -/
def createAccount (a : Address) : Effect :=
  l.update a (l.creation a) { Cell.zero with balance := (l.cells a).elim 0 Cell.balance }

/-- `GetOrNewStateObject`. -/
def fetch (a : Address) : Effect × Cell :=
  match l.cell a with
  | some c => ((l, []), c)
  | none => (l.update a (l.creation a) Cell.zero, Cell.zero)

/-- The common shape of the setters. -/
def unlessFrozen (a : Address) (write : Ledger → Cell → Effect) : Effect :=
  match l.fetch a with
  | ((l, es), c) => if c.freeze then (l, es) else ((write l c).1, es ++ (write l c).2)

/-- `SetBalance` of an object. -/
def setBalance (a : Address) (amount : ℤ) (l : Ledger) (c : Cell) : Effect :=
  l.update a (.balanceChange a c.balance) { c with balance := amount }

/-- `AddBalance` of an object, without the mark on RIPEMD that no revert takes back. -/
def addBalance (a : Address) (amount : ℤ) (l : Ledger) (c : Cell) : Effect :=
  if amount = 0 then if c.empty then l.update a (.touchChange a) c else (l, [])
  else setBalance a (c.balance + amount) l c

/-- `SubBalance` of an object. -/
def subBalance (a : Address) (amount : ℤ) (l : Ledger) (c : Cell) : Effect :=
  if amount = 0 then (l, []) else setBalance a (c.balance - amount) l c

/-- `SetNonce` of an object. -/
def setNonce (a : Address) (nonce : UInt64) (l : Ledger) (c : Cell) : Effect :=
  l.update a (.nonceChange a c.nonce) { c with nonce }

/-- `SetCode` of an object. -/
def setCode (a : Address) (code : List UInt8) (l : Ledger) (c : Cell) : Effect :=
  l.update a (.codeChange a c.code) { c with code }

/-- `SetState` of an object. -/
def setState (a : Address) (key value : Word) (l : Ledger) (c : Cell) : Effect :=
  if c.current key = value then (l, [])
  else l.update a (.storageChange a key (c.current key)) (c.setState key value)

/-- The flag is set, whether it was set or not. -/
def setFreezeState (a : Address) (isFreeze : Bool) : Effect :=
  match l.fetch a with
  | ((l, es), c) =>
    ((l.update a (.freezeChange a c.freeze) { c with freeze := isFreeze }).1,
      es ++ [.freezeChange a c.freeze])

/-- An account that is there is marked, and pays out. -/
def suicide (a : Address) : Effect :=
  match l.cell a with
  | none => (l, [])
  | some c =>
    l.update a (.suicideChange a c.suicided c.balance) { c with balance := 0, suicided := true }

/-- A log is added. -/
def addLog (thash : Word) (log : EventLog) : Effect :=
  ({ l with logs := Function.update l.logs thash (l.logs thash ++ [log])
            logSize := l.logSize + 1 }, [.addLogChange thash])

/-- A write of the refund counter. -/
def setRefund (refund : UInt64) : Effect :=
  ({ l with refund }, [.refundChange l.refund])

/-! ## Undoing -/

/-- A setter that `revert` calls on the account of an entry. -/
def revertCell (a : Address) (f : Cell → Cell) : Option Ledger :=
  (l.cell a).map fun c => l.put a (f c)

/-- `revert` of one journal entry. -/
def revertEntry : JournalEntry Cell → Option Ledger
  | .createObjectChange a => some { l with cells := Function.update l.cells a none }
  | .resetObjectChange a prev => some (l.put a prev)
  | .suicideChange a prev prevbalance =>
    match l.cell a with
    | some c => some (l.put a { c with balance := prevbalance, suicided := prev })
    | none => some l
  | .balanceChange a prev => l.revertCell a fun c => { c with balance := prev }
  | .nonceChange a prev => l.revertCell a fun c => { c with nonce := prev }
  | .storageChange a key prevalue => l.revertCell a fun c => c.setState key prevalue
  | .codeChange a prevcode => l.revertCell a fun c => { c with code := prevcode }
  | .freezeChange a prev => l.revertCell a fun c => { c with freeze := prev }
  | .refundChange prev => some { l with refund := prev }
  | .addLogChange h =>
    some { l with logs := Function.update l.logs h (l.logs h).dropLast, logSize := l.logSize - 1 }
  | .touchChange _ => some l

/-- The dirty mark of an entry is dropped. -/
def unmark (e : JournalEntry Cell) : Ledger :=
  { l with dirties := match e.dirtied with
      | some a => Function.update l.dirties a (l.dirties a - 1)
      | none => l.dirties }

/-- One turn of the loop of `journal.revert`. -/
def undo (e : JournalEntry Cell) (l : Ledger) : Option Ledger :=
  (l.revertEntry e).map fun l => l.unmark e

/-- Undoing the entries of an effect, the latest first, gives `l`. -/
def Reverts (eff : Effect) : Prop :=
  Client.unwind undo eff.2.reverse eff.1 = some l

theorem unmark_mark (e : JournalEntry Cell) : (l.mark e).unmark e = l := by
  unfold mark unmark
  cases e.dirtied <;> simp

variable {l : Ledger} {a : Address} {c c' : Cell} {e : JournalEntry Cell}

theorem cell_put (h : c.deleted = false) : (l.put a c).cell a = some c := by
  simp [put, cell, h]

theorem cells_of_cell (h : l.cell a = some c) : l.cells a = some c ∧ c.deleted = false := by
  simpa [cell, filter_eq_some_iff] using h

theorem put_put_self (h : l.cells a = some c) : (l.put a c').put a c = l := by
  simp [put, ← h]

theorem reverts_nil (l : Ledger) : Reverts l (l, []) := rfl

theorem reverts_single {l' : Ledger} (h : undo e l' = some l) : Reverts l (l', [e]) := by
  simp [Reverts, Client.unwind, h]

theorem Reverts.append {l' : Ledger} {es : List (JournalEntry Cell)} {eff : Effect}
    (h : Reverts l (l', es)) (h' : Reverts l' eff) : Reverts l (eff.1, es ++ eff.2) := by
  unfold Reverts at *
  rw [List.reverse_append, Client.unwind_append, h']
  exact h

theorem reverts_update (hc : l.cell a = some c)
    (hrevert : ((l.mark e).put a c').revertEntry e = some (((l.mark e).put a c').put a c)) :
    Reverts l (l.update a e c') := by
  refine reverts_single ?_
  have hmark : (l.mark e).cells a = some c := (cells_of_cell hc).1
  simp only [undo, hrevert, map_some, put_put_self hmark, unmark_mark]

theorem reverts_setter {f : Cell → Cell} (hc : l.cell a = some c) (hlive : c'.deleted = c.deleted)
    (hf : f c' = c) (hrevert : ∀ l : Ledger, l.revertEntry e = l.revertCell a f) :
    Reverts l (l.update a e c') := by
  refine reverts_update hc ?_
  rw [hrevert, revertCell, cell_put (hlive.trans (cells_of_cell hc).2), map_some, hf]

theorem reverts_creation (l : Ledger) (a : Address) (c : Cell) :
    Reverts l (l.update a (l.creation a) c) := by
  refine reverts_single ?_
  rcases h : l.cells a with _ | prev
  · have hcells : Function.update (Function.update l.cells a (some c)) a none = l.cells := by
      simp [← h]
    simp only [creation, h, undo, revertEntry, put, mark, map_some, hcells]
    exact congrArg some (unmark_mark l (.createObjectChange a))
  · simp only [creation, h, undo, revertEntry, map_some]
    rw [put_put_self (show (l.mark (.resetObjectChange a prev)).cells a = some prev from h),
      unmark_mark]

theorem reverts_fetch (l : Ledger) (a : Address) : Reverts l (l.fetch a).1 := by
  unfold fetch
  split
  · exact reverts_nil l
  · exact reverts_creation l a _

theorem cell_fetch (l : Ledger) (a : Address) : (l.fetch a).1.1.cell a = some (l.fetch a).2 := by
  unfold fetch
  split
  case h_1 c h => exact h
  case h_2 => exact cell_put rfl

theorem reverts_unlessFrozen {write : Ledger → Cell → Effect}
    (hwrite : ∀ l c, l.cell a = some c → Reverts l (write l c)) (l : Ledger) :
    Reverts l (l.unlessFrozen a write) := by
  have hf := reverts_fetch l a
  have hc := cell_fetch l a
  unfold unlessFrozen
  generalize l.fetch a = r at hf hc ⊢
  obtain ⟨⟨l', es⟩, c⟩ := r
  dsimp only at hf hc ⊢
  split
  · exact hf
  · exact hf.append (hwrite l' c hc)

section

variable (amount : ℤ) (hc : l.cell a = some c)
include hc

theorem reverts_setBalance : Reverts l (setBalance a amount l c) :=
  reverts_setter hc rfl rfl fun _ => rfl

theorem reverts_addBalance : Reverts l (addBalance a amount l c) := by
  unfold addBalance
  split_ifs
  · refine reverts_update hc ?_
    simp [revertEntry, put]
  · exact reverts_nil l
  · exact reverts_setBalance _ hc

theorem reverts_subBalance : Reverts l (subBalance a amount l c) := by
  unfold subBalance
  split_ifs
  · exact reverts_nil l
  · exact reverts_setBalance _ hc

end

theorem reverts_setNonce (nonce : UInt64) (hc : l.cell a = some c) :
    Reverts l (setNonce a nonce l c) :=
  reverts_setter hc rfl rfl fun _ => rfl

theorem reverts_setCode (code : List UInt8) (hc : l.cell a = some c) :
    Reverts l (setCode a code l c) :=
  reverts_setter hc rfl rfl fun _ => rfl

theorem reverts_setState (key value : Word) (hc : l.cell a = some c) :
    Reverts l (setState a key value l c) := by
  unfold setState
  split_ifs
  · exact reverts_nil l
  · refine reverts_setter hc rfl ?_ fun _ => rfl
    simp [Cell.setState]

theorem reverts_suicide (l : Ledger) (a : Address) : Reverts l (l.suicide a) := by
  unfold suicide
  split
  · exact reverts_nil l
  case h_2 c hc =>
    refine reverts_update hc ?_
    have hdel : ({ c with balance := 0, suicided := true } : Cell).deleted = false :=
      (cells_of_cell hc).2
    simp only [revertEntry, cell_put hdel]

theorem reverts_addLog (l : Ledger) (thash : Word) (log : EventLog) :
    Reverts l (l.addLog thash log) := by
  refine reverts_single ?_
  simp [undo, revertEntry, unmark, JournalEntry.dirtied]

theorem reverts_setRefund (l : Ledger) (refund : UInt64) : Reverts l (l.setRefund refund) :=
  reverts_single rfl

end Ledger

/-! ## The calls on the ledger -/

namespace Kept

variable {W : Type}

/-- A write to the cached wrappers. -/
def putValidator (k : Kept W) (a : Address) (val : W) : Kept W :=
  { k with
    validators := update k.validators a (some val)
    keys := if (k.validators a).isSome then k.keys else a :: k.keys }

/-- The explicit dirty mark of a touch of RIPEMD. -/
def touch (k : Kept W) (a : Address) (amount : ℤ) (c : Cell) : Kept W :=
  if a = ripemd ∧ amount = 0 ∧ c.freeze = false ∧ c.empty then
    { k with forced := update k.forced a (k.forced a + 1) }
  else k

end Kept

namespace Ledger

variable {W : Type}

/-- A call that only reads. -/
def reads {α : Type} (a : α) (l : Ledger) (k : Kept W) :
    Option (α × Ledger × Kept W × List (JournalEntry Cell)) := some (a, l, k, [])

/-- A call that writes. -/
def writes {α : Type} (a : α) (eff : Effect) (k : Kept W) :
    Option (α × Ledger × Kept W × List (JournalEntry Cell)) := some (a, eff.1, k, eff.2)

/-- The balance of an address. -/
def balance (l : Ledger) (a : Address) : ℤ := (l.cell a).elim 0 Cell.balance

/-- The nonce of an address. -/
def nonce (l : Ledger) (a : Address) : UInt64 := (l.cell a).elim 0 Cell.nonce

/-- A storage slot, as of now. -/
def state (l : Ledger) (a : Address) (key : Word) : Word := (l.cell a).elim 0 fun c => c.current key

/-- A storage slot, as of the last transaction. -/
def committedState (l : Ledger) (a : Address) (key : Word) : Word :=
  (l.cell a).elim 0 fun c => c.stored key

/-- The code of an address. -/
def code (l : Ledger) (a : Address) : List UInt8 := (l.cell a).elim [] Cell.code

/-- `ValidatorWrapperCopy`. -/
def wrapperCopy (codec : WrapperCodec W) (l : Ledger) (a : Address) : Option W :=
  if l.code a = [] then none else codec.decode (l.code a)

/-- One call on the ledger. -/
def call (codec : WrapperCodec W) : (c : Call W) → Ledger → Kept W →
    Option (c.Answer × Ledger × Kept W × List (JournalEntry Cell))
  | .exist a, l, k => reads (l.cell a).isSome l k
  | .empty a, l, k => reads ((l.cell a).all Cell.empty) l k
  | .getBalance a, l, k => reads (l.balance a) l k
  | .getNonce a, l, k => reads (l.nonce a) l k
  | .getCode a, l, k => reads (l.code a) l k
  | .getState a key, l, k => reads (l.state a key) l k
  | .getCommittedState a key, l, k => reads (l.committedState a key) l k
  | .hasSuicided a, l, k => reads ((l.cell a).any Cell.suicided) l k
  | .getRefund, l, k => reads l.refund l k
  | .createAccount a, l, k => writes () (l.createAccount a) k
  | .addBalance a amount, l, k =>
    writes () (l.unlessFrozen a (addBalance a amount)) (k.touch a amount (l.fetch a).2)
  | .subBalance a amount, l, k => writes () (l.unlessFrozen a (subBalance a amount)) k
  | .setNonce a nonce, l, k => writes () (l.unlessFrozen a (setNonce a nonce)) k
  | .setCode a code, l, k => writes () (l.unlessFrozen a (setCode a code)) k
  | .setState a key value, l, k => writes () (l.unlessFrozen a (setState a key value)) k
  | .suicide a, l, k => writes (l.cell a).isSome (l.suicide a) k
  | .addRefund gas, l, k => writes () (l.setRefund (l.refund + gas)) k
  | .subRefund gas, l, k =>
    if l.refund < gas then none else writes () (l.setRefund (l.refund - gas)) k
  | .addLog log, l, k => writes () (l.addLog k.thash log) k
  | .validatorWrapper a, l, k =>
    match k.validators a with
    | some val => reads (some val) l k
    | none =>
      match l.wrapperCopy codec a with
      | some val => reads (some val) l (k.putValidator a val)
      | none => reads none l k
  | .putValidator a val, l, k => reads () l (k.putValidator a val)
  | .updateValidatorWrapper a val, l, k =>
    match DB.wrapperBytes codec val with
    | none => reads false l k
    | some code => writes true (l.unlessFrozen a (setCode a code)) (k.putValidator a val)

variable {α : Type} {x r : α} {l l' : Ledger} {k k' : Kept W} {es : List (JournalEntry Cell)}

theorem reverts_of_reads (h : reads x l k = some (r, l', k', es)) : Reverts l (l', es) := by
  obtain ⟨-, rfl, -, rfl⟩ := h
  exact reverts_nil l

theorem reverts_of_writes {eff : Effect} (heff : Reverts l eff)
    (h : writes x eff k = some (r, l', k', es)) : Reverts l (l', es) := by
  obtain ⟨-, rfl, -, rfl⟩ := h
  exact heff

/-- **Undoing what a call has logged puts the ledger back.** -/
theorem undo_call (codec : WrapperCodec W) (c : Call W) (l : Ledger) (k : Kept W) (r : c.Answer)
    (l' : Ledger) (k' : Kept W) (es : List (JournalEntry Cell))
    (h : call codec c l k = some (r, l', k', es)) : Reverts l (l', es) := by
  cases c with
  | createAccount a => exact reverts_of_writes (reverts_creation l a _) h
  | addBalance a amount =>
    exact reverts_of_writes (reverts_unlessFrozen (fun _ _ => reverts_addBalance amount) l) h
  | subBalance a amount =>
    exact reverts_of_writes (reverts_unlessFrozen (fun _ _ => reverts_subBalance amount) l) h
  | setNonce a nonce =>
    exact reverts_of_writes (reverts_unlessFrozen (fun _ _ => reverts_setNonce nonce) l) h
  | setCode a code =>
    exact reverts_of_writes (reverts_unlessFrozen (fun _ _ => reverts_setCode code) l) h
  | setState a key value =>
    exact reverts_of_writes (reverts_unlessFrozen (fun _ _ => reverts_setState key value) l) h
  | suicide a => exact reverts_of_writes (reverts_suicide l a) h
  | addRefund gas => exact reverts_of_writes (reverts_setRefund l _) h
  | subRefund gas =>
    simp only [call] at h
    split at h
    · cases h
    · exact reverts_of_writes (reverts_setRefund l _) h
  | addLog log => exact reverts_of_writes (reverts_addLog l _ _) h
  | validatorWrapper a =>
    simp only [call] at h
    split at h
    · exact reverts_of_reads h
    · split at h <;> exact reverts_of_reads h
  | updateValidatorWrapper a val =>
    simp only [call] at h
    split at h
    · exact reverts_of_reads h
    · exact reverts_of_writes (reverts_unlessFrozen (fun _ _ => reverts_setCode _) l) h
  | _ => exact reverts_of_reads h

end Ledger

/-- The ledger as an undo log. -/
def ledger {W : Type} (codec : WrapperCodec W) :
    Client.Undo (interface W) Ledger (Kept W) (JournalEntry Cell) where
  call := Ledger.call codec
  undo := Ledger.undo
  undo_call := Ledger.undo_call codec

end DyShard.State
