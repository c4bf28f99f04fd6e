import Fwknox.LruProofs

/-! # Netfilter — hooks, base chains and transactional rulesets

    The part of nftables a user of one inet table meets.

    * A packet on a hook traverses every base chain registered there.  An accept ends
      only the chain it is in; a drop is final.  So the order of the chains does not
      matter, and one dropping chain decides (`traverse_eq_drop`).
    * A ruleset changes by batches of commands, all or nothing.  Adding what is present
      is a no-op, except for rules, which are appended; deleting what is absent fails.
    * How the texts of a set element are read as values is a parameter.

    Four sections of rules follow the definitions.
    * What a command can do: `applyOne_cases`, the one place where commands are run.
    * One set under a batch: the commands of a batch that only change one set act on its
      content alone (`apply_changes`), and a batch of deletions goes through exactly when
      its keys are distinct and all present (`deleteKeys_eq_some_iff`).  The type a set
      was declared with stays (`setType_apply`).
    * What a set holds: declarations neither add nor remove elements (`holds_apply`).
    * Tables that contain no drop: whatever their sets hold, their chains accept every
      packet, and accepting commands keep them so. -/

namespace Netfilter

open LruMap

/-- What a chain says of a packet. -/
inductive Verdict where
  | accept
  | drop
  deriving DecidableEq

/-! ## Traversal of a hook -/

section Traversal

variable {P : Type}

/-- Every base chain in turn, until one drops. -/
def traverse : List (P → Verdict) → P → Verdict
  | [], _ => .accept
  | c :: cs, p =>
      match c p with
      | .accept => traverse cs p
      | .drop => .drop

/-- **A DROP IS FINAL**, and nothing else stops a packet. -/
theorem traverse_eq_drop {chains : List (P → Verdict)} {p : P} :
    traverse chains p = .drop ↔ ∃ c ∈ chains, c p = .drop := by
  induction chains with
  | nil => simp [traverse]
  | cons c cs ih =>
      cases hc : c p with
      | accept => simp [traverse, hc, ih]
      | drop => simp [traverse, hc]

/-- Chains that accept a packet do not change what happens to it, wherever they stand. -/
theorem traverse_of_accepting {host own chains : List (P → Verdict)} {p : P}
    (hperm : chains.Perm (host ++ own)) (hown : ∀ c ∈ own, c p = .accept) :
    traverse chains p = .drop ↔ traverse host p = .drop := by
  rw [traverse_eq_drop, traverse_eq_drop]
  constructor
  · rintro ⟨c, hc, hdrop⟩
    rcases List.mem_append.mp (hperm.mem_iff.mp hc) with hhost | ho
    · exact ⟨c, hhost, hdrop⟩
    · rw [hown c ho] at hdrop
      exact nomatch hdrop
  · rintro ⟨c, hc, hdrop⟩
    exact ⟨c, hperm.mem_iff.mpr (List.mem_append_left _ hc), hdrop⟩

end Traversal

/-! ## Objects -/

/-- The types a set's key is made of. -/
inductive SetType where
  | ipv4Addr
  | inetProto
  | inetService
  deriving DecidableEq

/-- The expressions of the JSON interface this development reads. -/
inductive Expression where
  | payload (protocol field : String)
  | metaL4proto
  | concat (parts : List Expression)
  | string (s : String)
  | number (n : UInt32)
  | elem (val : Expression) (timeout : Option UInt32)

/-- The statements of a rule. -/
inductive Statement where
  /-- `left` is in the set that `right` names. -/
  | matchIn (left right : Expression)
  | accept
  | drop

/-- Where a base chain sits. -/
inductive Hook where
  | prerouting
  | input
  | forward
  | output
  | postrouting
  deriving DecidableEq

/-- The objects of an inet table. -/
inductive Object where
  | table (name : String)
  | set (table name : String) (set_type : List SetType)
  | chain (table name : String) (hook : Hook) (prio : Int) (policy : Verdict)
  | rule (table chain : String) (expr : List Statement)
  | element (table name : String) (elem : List Expression)

/-- The commands of a batch. -/
inductive Command where
  | add (o : Object)
  | deleteElement (table name : String) (elem : List Expression)
  | deleteTable (name : String)

/-! ## Values -/

variable {A Q : Type}

/-- One component of a key. -/
inductive Value (A Q : Type) where
  | addr (a : A)
  | proto (q : Q)
  | port (n : UInt16)
  deriving DecidableEq

/-- An IPv4 packet with a transport header. -/
structure Packet (A Q : Type) where
  saddr : A
  l4proto : Q
  dport : UInt16

/-- How element texts are read. -/
structure Reader (A Q : Type) where
  addr : String → Option A
  proto : String → Option Q

/-- An expression read at a type. -/
def Reader.value (R : Reader A Q) : SetType → Expression → Option (Value A Q)
  | .ipv4Addr, .string s => (R.addr s).map .addr
  | .inetProto, .string s => (R.proto s).map .proto
  | .inetService, .number n => if n.toNat < 65536 then some (.port n.toUInt16) else none
  | _, _ => none

/-- The parts of a concatenation, one for each component of the set's type. -/
def Reader.values (R : Reader A Q) : List SetType → List Expression → Option (List (Value A Q))
  | [], [] => some []
  | t :: ts, e :: es =>
      match R.value t e, R.values ts es with
      | some v, some vs => some (v :: vs)
      | _, _ => none
  | _, _ => none

/-- An element's key and timeout. -/
def Reader.element (R : Reader A Q) (ty : List SetType) :
    Expression → Option (List (Value A Q) × Option UInt32)
  | .elem (.concat parts) timeout => (R.values ty parts).map (·, timeout)
  | .concat parts => (R.values ty parts).map (·, none)
  | _ => none

/-- The field of the packet an expression selects. -/
def Packet.field (p : Packet A Q) : Expression → Option (Value A Q)
  | .payload protocol field =>
      if protocol = "ip" ∧ field = "saddr" then some (.addr p.saddr)
      else if protocol = "th" ∧ field = "dport" then some (.port p.dport)
      else none
  | .metaL4proto => some (.proto p.l4proto)
  | _ => none

/-- The key a lookup makes of a packet. -/
def Packet.fields (p : Packet A Q) : List Expression → Option (List (Value A Q))
  | [] => some []
  | e :: es =>
      match p.field e, p.fields es with
      | some v, some vs => some (v :: vs)
      | _, _ => none

/-! ## Rulesets -/

/-- A set: the type of its keys, and its elements with their timeouts. -/
structure SetState (A Q : Type) where
  set_type : List SetType
  elements : List (List (Value A Q) × Option UInt32)

/-- A base chain and its rules in order. -/
structure ChainState where
  hook : Hook
  prio : Int
  policy : Verdict
  rules : List (List Statement)

/-- The sets and chains of one table. -/
structure Table (A Q : Type) where
  sets : Assoc String (SetState A Q)
  chains : Assoc String ChainState

/-- The inet tables by name. -/
abbrev Ruleset (A Q : Type) := Assoc String (Table A Q)

section Evaluation

variable [DecidableEq A] [DecidableEq Q]

/-- Is the key in the set? -/
def SetState.has (S : SetState A Q) (key : List (Value A Q)) : Bool :=
  S.elements.any (fun e => e.1 == key)

/-- Does the packet match the lookup? -/
def Table.lookupMatches (T : Table A Q) (p : Packet A Q) : Expression → Expression → Bool
  | .concat parts, .string s =>
      match p.fields parts, T.sets.entries.find? (fun e => "@" ++ e.1 == s) with
      | some key, some e => e.2.has key
      | _, _ => false
  | _, _ => false

/-- The statements of a rule in turn; a failed match ends it without a verdict. -/
def Table.ruleVerdict (T : Table A Q) (p : Packet A Q) : List Statement → Option Verdict
  | [] => none
  | .matchIn left right :: rest =>
      if T.lookupMatches p left right then T.ruleVerdict p rest else none
  | .accept :: _ => some .accept
  | .drop :: _ => some .drop

/-- The first rule with a verdict, else the policy. -/
def Table.chainVerdict (T : Table A Q) (C : ChainState) (p : Packet A Q) : Verdict :=
  (C.rules.findSome? (T.ruleVerdict p)).getD C.policy

/-- The base chains a ruleset registers on the input hook. -/
def inputChains (rs : Ruleset A Q) : List (Packet A Q → Verdict) :=
  rs.entries.flatMap fun t =>
    (t.2.chains.entries.filter (fun c => c.2.hook = .input)).map fun c => t.2.chainVerdict c.2

/-! ## Transactions -/

/-- Adding a present element changes nothing. -/
def SetState.add (S : SetState A Q) (e : List (Value A Q) × Option UInt32) : SetState A Q :=
  if S.has e.1 then S else { S with elements := S.elements ++ [e] }

/-- Take every element with that key out. -/
def SetState.remove (S : SetState A Q) (key : List (Value A Q)) : SetState A Q :=
  { S with elements := S.elements.filter (fun e => !(e.1 == key)) }

/-- The elements of one command, in order; the first that does not read fails it. -/
def SetState.addAll (R : Reader A Q) (S : SetState A Q) : List Expression → Option (SetState A Q)
  | [] => some S
  | e :: es =>
      match R.element S.set_type e with
      | some el => (S.add el).addAll R es
      | none => none

/-- Deleting an absent element fails. -/
def SetState.deleteAll (R : Reader A Q) (S : SetState A Q) :
    List Expression → Option (SetState A Q)
  | [] => some S
  | e :: es =>
      match R.element S.set_type e with
      | some el => if S.has el.1 then (S.remove el.1).deleteAll R es else none
      | none => none

/-- Change one set of one table. -/
def modifySet (rs : Ruleset A Q) (table name : String)
    (f : SetState A Q → Option (SetState A Q)) : Option (Ruleset A Q) :=
  match rs.lookup table with
  | none => none
  | some T =>
      match T.sets.lookup name with
      | none => none
      | some S => (f S).map fun S' => rs.insert table { T with sets := T.sets.insert name S' }

/-- One command.  What it needs must be there, and what is there already stays. -/
def applyOne (R : Reader A Q) (rs : Ruleset A Q) : Command → Option (Ruleset A Q)
  | .add (.table name) => some (if name ∈ rs then rs else rs.insert name ⟨∅, ∅⟩)
  | .add (.set table name ty) =>
      (rs.lookup table).map fun T =>
        if name ∈ T.sets then rs
        else rs.insert table { T with sets := T.sets.insert name ⟨ty, []⟩ }
  | .add (.chain table name hook prio policy) =>
      (rs.lookup table).map fun T =>
        if name ∈ T.chains then rs
        else rs.insert table { T with chains := T.chains.insert name ⟨hook, prio, policy, []⟩ }
  | .add (.rule table chain expr) =>
      match rs.lookup table with
      | none => none
      | some T => (T.chains.lookup chain).map fun C =>
          rs.insert table
            { T with chains := T.chains.insert chain { C with rules := C.rules ++ [expr] } }
  | .add (.element table name es) => modifySet rs table name fun S => S.addAll R es
  | .deleteElement table name es => modifySet rs table name fun S => S.deleteAll R es
  | .deleteTable name => if name ∈ rs then some (rs.erase name) else none

/-- A batch, all or nothing. -/
def apply (R : Reader A Q) : Ruleset A Q → List Command → Option (Ruleset A Q)
  | rs, [] => some rs
  | rs, c :: cs =>
      match applyOne R rs c with
      | some rs' => apply R rs' cs
      | none => none

/-- The timeout of an element runs out. -/
def expire (rs : Ruleset A Q) (table name : String) (key : List (Value A Q)) : Ruleset A Q :=
  (modifySet rs table name fun S =>
    some { S with elements := S.elements.filter (fun e => !(e.1 == key && e.2.isSome)) }).getD rs

/-! ## What a command can do -/

omit [DecidableEq A] [DecidableEq Q] in
/-- Changing a set needs the table, the set and a change that works. -/
theorem modifySet_eq_some {rs rs' : Ruleset A Q} {table name : String}
    {f : SetState A Q → Option (SetState A Q)} :
    modifySet rs table name f = some rs'
      ↔ ∃ T S S', rs.lookup table = some T ∧ T.sets.lookup name = some S ∧ f S = some S'
        ∧ rs' = rs.insert table { T with sets := T.sets.insert name S' } := by
  simp only [modifySet]
  constructor
  · intro hm
    cases hT : rs.lookup table with
    | none => simp [hT] at hm
    | some T =>
        cases hS : T.sets.lookup name with
        | none => simp [hT, hS] at hm
        | some S =>
            simp only [hT, hS, Option.map_eq_some_iff] at hm
            obtain ⟨S', hS', rfl⟩ := hm
            exact ⟨T, S, S', rfl, hS, hS', rfl⟩
  · rintro ⟨T, S, S', hT, hS, hS', rfl⟩
    simp only [hT, hS, hS', Option.map_some]

/-- A command that goes through, and the ruleset it leaves. -/
inductive Applied (R : Reader A Q) (rs : Ruleset A Q) : Command → Ruleset A Q → Prop
  | tableThere (name : String) (h : name ∈ rs) : Applied R rs (.add (.table name)) rs
  | table (name : String) (h : name ∉ rs) :
      Applied R rs (.add (.table name)) (rs.insert name ⟨∅, ∅⟩)
  | setThere (table name : String) (ty : List SetType) (T : Table A Q)
      (hT : rs.lookup table = some T) (h : name ∈ T.sets) :
      Applied R rs (.add (.set table name ty)) rs
  | set (table name : String) (ty : List SetType) (T : Table A Q)
      (hT : rs.lookup table = some T) (h : name ∉ T.sets) :
      Applied R rs (.add (.set table name ty))
        (rs.insert table { T with sets := T.sets.insert name ⟨ty, []⟩ })
  | chainThere (table name : String) (hook : Hook) (prio : Int) (policy : Verdict) (T : Table A Q)
      (hT : rs.lookup table = some T) (h : name ∈ T.chains) :
      Applied R rs (.add (.chain table name hook prio policy)) rs
  | chain (table name : String) (hook : Hook) (prio : Int) (policy : Verdict) (T : Table A Q)
      (hT : rs.lookup table = some T) (h : name ∉ T.chains) :
      Applied R rs (.add (.chain table name hook prio policy))
        (rs.insert table { T with chains := T.chains.insert name ⟨hook, prio, policy, []⟩ })
  | rule (table chain : String) (expr : List Statement) (T : Table A Q) (C : ChainState)
      (hT : rs.lookup table = some T) (hC : T.chains.lookup chain = some C) :
      Applied R rs (.add (.rule table chain expr))
        (rs.insert table
          { T with chains := T.chains.insert chain { C with rules := C.rules ++ [expr] } })
  | added (table name : String) (es : List Expression) (T : Table A Q) (S S' : SetState A Q)
      (hT : rs.lookup table = some T) (hS : T.sets.lookup name = some S)
      (h : S.addAll R es = some S') :
      Applied R rs (.add (.element table name es))
        (rs.insert table { T with sets := T.sets.insert name S' })
  | deleted (table name : String) (es : List Expression) (T : Table A Q) (S S' : SetState A Q)
      (hT : rs.lookup table = some T) (hS : T.sets.lookup name = some S)
      (h : S.deleteAll R es = some S') :
      Applied R rs (.deleteElement table name es)
        (rs.insert table { T with sets := T.sets.insert name S' })
  | dropped (name : String) (h : name ∈ rs) : Applied R rs (.deleteTable name) (rs.erase name)

/-- **EVERY COMMAND.** -/
theorem applyOne_cases {R : Reader A Q} {rs rs' : Ruleset A Q} {c : Command}
    (h : applyOne R rs c = some rs') : Applied R rs c rs' := by
  cases c with
  | add o =>
      cases o with
      | table name =>
          cases h
          split
          · rename_i h
            exact .tableThere name h
          · rename_i h
            exact .table name h
      | set table name ty =>
          obtain ⟨T, hT, rfl⟩ := Option.map_eq_some_iff.mp h
          split
          · rename_i h
            exact .setThere table name ty T hT h
          · rename_i h
            exact .set table name ty T hT h
      | chain table name hook prio policy =>
          obtain ⟨T, hT, rfl⟩ := Option.map_eq_some_iff.mp h
          split
          · rename_i h
            exact .chainThere table name hook prio policy T hT h
          · rename_i h
            exact .chain table name hook prio policy T hT h
      | rule table chain expr =>
          -- a rule needs its table and its chain
          cases hT : rs.lookup table with
          | none => simp [applyOne, hT] at h
          | some T =>
              simp only [applyOne, hT, Option.map_eq_some_iff] at h
              obtain ⟨C, hC, rfl⟩ := h
              exact .rule table chain expr T C hT hC
      | element table name es =>
          obtain ⟨T, S, S', hT, hS, hadd, rfl⟩ := modifySet_eq_some.mp h
          exact .added table name es T S S' hT hS hadd
  | deleteElement table name es =>
      obtain ⟨T, S, S', hT, hS, hdel, rfl⟩ := modifySet_eq_some.mp h
      exact .deleted table name es T S S' hT hS hdel
  | deleteTable name =>
      simp only [applyOne] at h
      split at h
      · rename_i hin
        cases h
        exact .dropped name hin
      · cases h

/-! ## One set under a batch -/

/-- A batch goes through command by command. -/
theorem apply_cons_eq_some {R : Reader A Q} {rs rs' : Ruleset A Q} {c : Command}
    {cs : List Command} :
    apply R rs (c :: cs) = some rs'
      ↔ ∃ rs₁, applyOne R rs c = some rs₁ ∧ apply R rs₁ cs = some rs' := by
  rw [apply]
  cases applyOne R rs c with
  | none => simp
  | some rs₁ => simp

/-- The set of a table. -/
def setState (rs : Ruleset A Q) (table name : String) : Option (SetState A Q) :=
  (rs.lookup table).bind fun T => T.sets.lookup name

omit [DecidableEq A] [DecidableEq Q] in
/-- A change of a set that is there shows in the set. -/
theorem setState_modifySet {rs : Ruleset A Q} {table name : String} {S : SetState A Q}
    (h : setState rs table name = some S) (f : SetState A Q → Option (SetState A Q)) :
    (modifySet rs table name f).map (fun rs' => setState rs' table name) = (f S).map some := by
  obtain ⟨T, hT, hS⟩ := Option.bind_eq_some_iff.mp h
  simp only [modifySet, hT, hS]
  cases f S with
  | none => rfl
  | some S' => simp [setState]

/-- A batch of changes of one set acts on its content: it goes through iff the changes
    do, one after the other, and leaves what they leave. -/
theorem apply_changes {I : Type} {R : Reader A Q} {table name : String} {cmd : I → Command}
    {change : SetState A Q → I → Option (SetState A Q)}
    (hcmd : ∀ rs i, applyOne R rs (cmd i) = modifySet rs table name fun S => change S i)
    (is : List I) {rs : Ruleset A Q} {S : SetState A Q} (hS : setState rs table name = some S) :
    (apply R rs (is.map cmd)).map (fun rs' => setState rs' table name)
      = (is.foldlM change S).map some := by
  induction is generalizing rs S with
  | nil => exact congrArg some hS
  | cons i is ih =>
      have hstep := setState_modifySet hS fun S => change S i
      rw [← hcmd] at hstep
      rw [List.map_cons, apply, List.foldlM_cons]
      cases hone : applyOne R rs (cmd i) with
      | none =>
          rw [hone, Option.map_none] at hstep
          rw [Option.map_eq_none_iff.mp hstep.symm]
          rfl
      | some rs' =>
          rw [hone, Option.map_some] at hstep
          obtain ⟨S', hS', hset⟩ := Option.map_eq_some_iff.mp hstep.symm
          rw [hS']
          exact ih hset.symm

/-- Delete one key; it has to be there. -/
def SetState.delete (S : SetState A Q) (key : List (Value A Q)) : Option (SetState A Q) :=
  if S.has key then some (S.remove key) else none

/-- The set without the keys. -/
def SetState.without (S : SetState A Q) (keys : List (List (Value A Q))) : SetState A Q :=
  { S with elements := S.elements.filter fun e => decide (e.1 ∉ keys) }

/-- The set with the keys added one after the other. -/
def SetState.addKeys (S : SetState A Q) (timeout : Option UInt32)
    (keys : List (List (Value A Q))) : SetState A Q :=
  keys.foldl (fun S k => S.add (k, timeout)) S

/-- A key is in the set when an element has it. -/
theorem SetState.has_iff {S : SetState A Q} {key : List (Value A Q)} :
    S.has key = true ↔ ∃ e ∈ S.elements, e.1 = key := by
  simp only [SetState.has, List.any_eq_true, beq_iff_eq]

/-- After removing a key the others are still there. -/
theorem SetState.has_remove {S : SetState A Q} {key k : List (Value A Q)} :
    (S.remove key).has k = true ↔ S.has k = true ∧ k ≠ key := by
  simp only [has_iff, SetState.remove, List.mem_filter, Bool.not_eq_true', beq_eq_false_iff_ne]
  constructor
  · rintro ⟨e, ⟨he, hne⟩, rfl⟩
    exact ⟨⟨e, he, rfl⟩, hne⟩
  · rintro ⟨⟨e, he, rfl⟩, hne⟩
    exact ⟨e, ⟨he, hne⟩, rfl⟩

/-- After adding an element its key is there, and nothing else is new. -/
theorem SetState.has_add {S : SetState A Q} {e : List (Value A Q) × Option UInt32}
    {k : List (Value A Q)} : (S.add e).has k = true ↔ S.has k = true ∨ k = e.1 := by
  simp only [SetState.add]
  by_cases h : S.has e.1 = true
  · rw [if_pos h]
    constructor
    · exact .inl
    · rintro (hk | rfl)
      · exact hk
      · exact h
  · rw [if_neg h]
    simp only [has_iff, List.mem_append, List.mem_singleton]
    constructor
    · rintro ⟨e', he' | rfl, rfl⟩
      · exact .inl ⟨e', he', rfl⟩
      · exact .inr rfl
    · rintro (⟨e', he', rfl⟩ | rfl)
      · exact ⟨e', .inl he', rfl⟩
      · exact ⟨e, .inr rfl, rfl⟩

/-- Keys can be taken out one after another. -/
theorem SetState.remove_without (S : SetState A Q) (key : List (Value A Q))
    (keys : List (List (Value A Q))) :
    (S.remove key).without keys = S.without (key :: keys) := by
  simp only [SetState.without, SetState.remove, List.filter_filter]
  congr 1
  refine List.filter_congr fun e _ => ?_
  rw [Bool.eq_iff_iff]
  simp [and_comm]

/-- **BATCH DELETION**: it goes through exactly when the keys are distinct and all
    present, and then removes them and nothing else. -/
theorem SetState.deleteKeys_eq_some_iff {keys : List (List (Value A Q))} {S S' : SetState A Q} :
    keys.foldlM SetState.delete S = some S'
      ↔ (∀ k ∈ keys, S.has k = true) ∧ keys.Nodup ∧ S' = S.without keys := by
  induction keys generalizing S with
  | nil =>
      have hnil : S.without [] = S := by simp [SetState.without]
      rw [List.foldlM_nil, hnil]
      constructor
      · intro h
        exact ⟨fun k hk => (nomatch hk), List.nodup_nil, (Option.some.inj h).symm⟩
      · rintro ⟨_, _, rfl⟩
        rfl
  | cons key keys ih =>
      rw [List.foldlM_cons, SetState.delete]
      by_cases hkey : S.has key = true
      · rw [if_pos hkey]
        refine ih.trans ?_
        rw [remove_without, List.nodup_cons, List.forall_mem_cons]
        simp only [has_remove]
        constructor
        · rintro ⟨hall, hnd, rfl⟩
          exact ⟨⟨hkey, fun k hk => (hall k hk).1⟩, ⟨fun hmem => (hall key hmem).2 rfl, hnd⟩, rfl⟩
        · rintro ⟨⟨_, hall⟩, ⟨hnot, hnd⟩, rfl⟩
          exact ⟨fun k hk => ⟨hall k hk, fun heq => hnot (heq ▸ hk)⟩, hnd, rfl⟩
      · rw [if_neg hkey]
        refine iff_of_false (fun h => nomatch h) ?_
        rintro ⟨hall, _⟩
        exact hkey (hall key List.mem_cons_self)

/-- After adding keys they are there, and nothing else is new. -/
theorem SetState.has_addKeys {keys : List (List (Value A Q))} {S : SetState A Q}
    {timeout : Option UInt32} {k : List (Value A Q)} :
    (S.addKeys timeout keys).has k = true ↔ S.has k = true ∨ k ∈ keys := by
  induction keys generalizing S with
  | nil => simp [SetState.addKeys]
  | cons key keys ih =>
      refine ih.trans ?_
      rw [has_add, List.mem_cons, or_assoc]

/-- Adding keys does not change the type. -/
theorem SetState.set_type_addKeys (keys : List (List (Value A Q))) (S : SetState A Q)
    (timeout : Option UInt32) : (S.addKeys timeout keys).set_type = S.set_type := by
  induction keys generalizing S with
  | nil => rfl
  | cons key keys ih =>
      refine (ih _).trans ?_
      simp only [SetState.add]
      split
      · rfl
      · rfl

/-- What is taken out does not depend on whether it was added before. -/
theorem SetState.without_addKeys {keys keys' : List (List (Value A Q))} (hsub : keys' ⊆ keys)
    (S : SetState A Q) (timeout : Option UInt32) :
    (S.addKeys timeout keys').without keys = S.without keys := by
  induction keys' generalizing S with
  | nil => rfl
  | cons key keys' ih =>
      refine (ih (List.subset_of_cons_subset hsub) _).trans ?_
      simp only [SetState.add]
      split
      · rfl
      · have hmem : key ∈ keys := hsub List.mem_cons_self
        simp [SetState.without, hmem]

/-- Taking out what is not there changes nothing. -/
theorem SetState.without_of_absent {keys : List (List (Value A Q))} {S : SetState A Q}
    (h : ∀ k ∈ keys, S.has k = false) : S.without keys = S := by
  have hall : ∀ e ∈ S.elements, decide (e.1 ∉ keys) = true := by
    intro e he
    refine decide_eq_true fun hmem => ?_
    have hin : S.has e.1 = true := has_iff.mpr ⟨e, he, rfl⟩
    rw [h e.1 hmem] at hin
    cases hin
  simp only [SetState.without, List.filter_eq_self.mpr hall]

/-! ## The type of a set -/

/-- The type a set was declared with. -/
def setType (rs : Ruleset A Q) (table name : String) : Option (List SetType) :=
  (setState rs table name).map SetState.set_type

/-- A command that neither declares a set nor deletes a table. -/
def Command.KeepsSets : Command → Prop
  | .add (.set _ _ _) => False
  | .deleteTable _ => False
  | _ => True

omit [DecidableEq A] [DecidableEq Q] in
/-- The sets of a table that was put in are that table's. -/
theorem setState_insert_self (rs : Ruleset A Q) (table name : String) (T : Table A Q) :
    setState (rs.insert table T) table name = T.sets.lookup name := by
  rw [setState, AList.lookup_insert, Option.bind_some]

omit [DecidableEq A] [DecidableEq Q] in
/-- The sets of the others are as before. -/
theorem setState_insert_ne {rs : Ruleset A Q} {table t name : String} {T : Table A Q}
    (h : t ≠ table) : setState (rs.insert table T) t name = setState rs t name := by
  rw [setState, AList.lookup_insert_ne h, setState]

omit [DecidableEq A] [DecidableEq Q] in
/-- Changing the chains of a table changes no set. -/
theorem setType_insert_chains {rs : Ruleset A Q} {table : String} {T : Table A Q}
    (hT : rs.lookup table = some T) (chains : Assoc String ChainState) (t name : String) :
    setType (rs.insert table { T with chains }) t name = setType rs t name := by
  by_cases ht : t = table
  · rw [ht, setType, setState_insert_self, setType, setState, hT, Option.bind_some]
  · rw [setType, setState_insert_ne ht, setType]

omit [DecidableEq A] [DecidableEq Q] in
/-- Nor does changing the content of a set change its type. -/
theorem setType_insert_set {rs : Ruleset A Q} {table name : String} {T : Table A Q}
    {S S' : SetState A Q} (hT : rs.lookup table = some T) (hS : T.sets.lookup name = some S)
    (hty : S'.set_type = S.set_type) (t n : String) :
    setType (rs.insert table { T with sets := T.sets.insert name S' }) t n = setType rs t n := by
  by_cases ht : t = table
  · have hold : setState rs t n = T.sets.lookup n := by
      rw [ht, setState, hT, Option.bind_some]
    rw [setType, setType, hold, ht, setState_insert_self]
    by_cases hn : n = name
    · rw [hn, AList.lookup_insert, hS, Option.map_some, Option.map_some, hty]
    · rw [AList.lookup_insert_ne hn]
  · rw [setType, setState_insert_ne ht, setType]

/-- Adding elements does not change the type. -/
theorem SetState.set_type_addAll {R : Reader A Q} {es : List Expression} {S S' : SetState A Q}
    (h : S.addAll R es = some S') : S'.set_type = S.set_type := by
  induction es generalizing S with
  | nil =>
      cases h
      rfl
  | cons e es ih =>
      rw [SetState.addAll] at h
      cases he : R.element S.set_type e with
      | none => simp [he] at h
      | some el =>
          simp only [he] at h
          exact (ih h).trans (set_type_addKeys [el.1] S el.2)

/-- Nor does deleting them. -/
theorem SetState.set_type_deleteAll {R : Reader A Q} {es : List Expression}
    {S S' : SetState A Q} (h : S.deleteAll R es = some S') : S'.set_type = S.set_type := by
  induction es generalizing S with
  | nil =>
      cases h
      rfl
  | cons e es ih =>
      rw [SetState.deleteAll] at h
      cases he : R.element S.set_type e with
      | none => simp [he] at h
      | some el =>
          simp only [he] at h
          split at h
          · exact (ih h).trans rfl
          · cases h

/-- A command that keeps the sets keeps their types. -/
theorem setType_applyOne {R : Reader A Q} {rs rs' : Ruleset A Q} {c : Command}
    (hc : c.KeepsSets) (h : applyOne R rs c = some rs') (t n : String) :
    setType rs' t n = setType rs t n := by
  cases applyOne_cases h with
  | tableThere name hin => rfl
  | table name hnew =>
      by_cases ht : t = name
      · have hnone : rs.lookup name = none := AList.lookup_eq_none.mpr hnew
        rw [ht, setType, setState_insert_self, setType, setState, hnone]
        rfl
      · rw [setType, setState_insert_ne ht, setType]
  | setThere table name ty T hT hin => exact absurd hc id
  | set table name ty T hT hnew => exact absurd hc id
  | chainThere table name hook prio policy T hT hin => rfl
  | chain table name hook prio policy T hT hnew => exact setType_insert_chains hT _ t n
  | rule table chain expr T C hT hC => exact setType_insert_chains hT _ t n
  | added table name es T S S' hT hS hadd =>
      exact setType_insert_set hT hS (SetState.set_type_addAll hadd) t n
  | deleted table name es T S S' hT hS hdel =>
      exact setType_insert_set hT hS (SetState.set_type_deleteAll hdel) t n
  | dropped name hin => exact absurd hc id

/-- Declaring a set gives it its type, unless it is there. -/
theorem setType_add_set {R : Reader A Q} {rs rs' : Ruleset A Q} {table name : String}
    {ty : List SetType} (h : applyOne R rs (.add (.set table name ty)) = some rs') :
    setType rs' table name = some ((setType rs table name).getD ty) := by
  have hold : ∀ T, rs.lookup table = some T → setState rs table name = T.sets.lookup name := by
    intro T hT
    rw [setState, hT, Option.bind_some]
  cases applyOne_cases h with
  | setThere _ _ _ T hT hin =>
      obtain ⟨S, hS⟩ := Option.isSome_iff_exists.mp (AList.lookup_isSome.mpr hin)
      rw [setType, hold T hT, hS]
      rfl
  | set _ _ _ T hT hnew =>
      rw [setType, setState_insert_self, AList.lookup_insert, setType, hold T hT,
        AList.lookup_eq_none.mpr hnew]
      rfl

/-- **DECLARED TYPES STAY**, whatever a batch puts into the sets. -/
theorem setType_apply {R : Reader A Q} {cs : List Command} {rs rs' : Ruleset A Q}
    (hcs : ∀ c ∈ cs, c.KeepsSets) (h : apply R rs cs = some rs') (t n : String) :
    setType rs' t n = setType rs t n := by
  induction cs generalizing rs with
  | nil =>
      cases h
      rfl
  | cons c cs ih =>
      obtain ⟨rs₁, h1, h⟩ := apply_cons_eq_some.mp h
      exact (ih (fun c' hc' => hcs c' (List.mem_cons_of_mem _ hc')) h).trans
        (setType_applyOne (hcs c List.mem_cons_self) h1 t n)

/-- In a deleted table no set is left. -/
theorem setType_deleteTable {R : Reader A Q} {rs rs' : Ruleset A Q} {table name : String}
    (h : apply R rs [.deleteTable table] = some rs') : setType rs' table name = none := by
  obtain ⟨rs₁, hdel, hnil⟩ := apply_cons_eq_some.mp h
  cases hnil
  cases applyOne_cases hdel with
  | dropped _ hin =>
      rw [setType, setState, AList.lookup_erase]
      rfl

/-- Expiry takes an element, not its set. -/
theorem setType_expire (rs : Ruleset A Q) (table name : String) (key : List (Value A Q))
    (t n : String) : setType (expire rs table name key) t n = setType rs t n := by
  simp only [expire]
  generalize hm : modifySet rs table name _ = r
  cases r with
  | none => rfl
  | some rs' =>
      obtain ⟨T, S, S', hT, hS, hS', rfl⟩ := modifySet_eq_some.mp hm
      have hty : S'.set_type = S.set_type := by
        cases hS'
        rfl
      exact setType_insert_set hT hS hty t n

/-! ## What a set holds -/

/-- The key is in the set of that name. -/
def Holds (rs : Ruleset A Q) (table name : String) (key : List (Value A Q)) : Prop :=
  ∃ S, setState rs table name = some S ∧ S.has key = true

/-- A command that declares an object and adds no element. -/
def Command.Declares : Command → Prop
  | .add (.element _ _ _) => False
  | .add _ => True
  | .deleteElement _ _ _ => False
  | .deleteTable _ => False

/-- A table whose sets look up alike holds the same. -/
theorem holds_insert {rs : Ruleset A Q} {table : String} {T : Table A Q} {key : List (Value A Q)}
    (hT : ∀ name, (∃ S, T.sets.lookup name = some S ∧ S.has key = true) ↔ Holds rs table name key)
    (t n : String) : Holds (rs.insert table T) t n key ↔ Holds rs t n key := by
  by_cases ht : t = table
  · rw [ht, Holds, setState_insert_self]
    exact hT n
  · rw [Holds, setState_insert_ne ht, Holds]

omit [DecidableEq A] [DecidableEq Q] in
/-- The set of a table that is known. -/
theorem setState_of_lookup {rs : Ruleset A Q} {table name : String} {T : Table A Q}
    (hT : rs.lookup table = some T) : setState rs table name = T.sets.lookup name := by
  rw [setState, hT, Option.bind_some]

/-- **DECLARATIONS ADD NO ELEMENT** and take none away. -/
theorem holds_applyOne {R : Reader A Q} {rs rs' : Ruleset A Q} {c : Command} (hc : c.Declares)
    (h : applyOne R rs c = some rs') (t n : String) (key : List (Value A Q)) :
    Holds rs' t n key ↔ Holds rs t n key := by
  cases applyOne_cases h with
  | tableThere name hin => rfl
  | table name hnew =>
      refine holds_insert ?_ t n
      intro name'
      rw [Holds, setState, AList.lookup_eq_none.mpr hnew]
      exact iff_of_false (by rintro ⟨S, hS, _⟩; cases hS) (by rintro ⟨S, hS, _⟩; cases hS)
  | setThere table name ty T hT hin => rfl
  | set table name ty T hT hnew =>
      refine holds_insert ?_ t n
      intro name'
      rw [Holds, setState_of_lookup hT]
      by_cases hn : name' = name
      · -- the new set is empty, and there was none before
        rw [hn, AList.lookup_insert, AList.lookup_eq_none.mpr hnew]
        exact iff_of_false (by rintro ⟨S, hS, hk⟩; cases hS; cases hk)
          (by rintro ⟨S, hS, _⟩; cases hS)
      · rw [AList.lookup_insert_ne hn]
  | chainThere table name hook prio policy T hT hin => rfl
  | chain table name hook prio policy T hT hnew =>
      refine holds_insert ?_ t n
      intro name'
      rw [Holds, setState_of_lookup hT]
  | rule table chain expr T C hT hC =>
      refine holds_insert ?_ t n
      intro name'
      rw [Holds, setState_of_lookup hT]
  | added table name es T S S' hT hS hadd => exact absurd hc id
  | deleted table name es T S S' hT hS hdel => exact absurd hc id
  | dropped name hin => exact absurd hc id

/-- Declarations alone put no element into a set. -/
theorem holds_apply {R : Reader A Q} {cs : List Command} {rs rs' : Ruleset A Q}
    (hcs : ∀ c ∈ cs, c.Declares) (h : apply R rs cs = some rs') (t n : String)
    (key : List (Value A Q)) : Holds rs' t n key ↔ Holds rs t n key := by
  induction cs generalizing rs with
  | nil =>
      cases h
      rfl
  | cons c cs ih =>
      obtain ⟨rs₁, hone, hrest⟩ := apply_cons_eq_some.mp h
      rw [ih (fun d hd => hcs d (List.mem_cons_of_mem _ hd)) hrest]
      exact holds_applyOne (hcs c List.mem_cons_self) hone t n key

/-- What runs out was there. -/
theorem Holds.of_expire {rs : Ruleset A Q} {table name t n : String} {k key : List (Value A Q)}
    (h : Holds (expire rs table name k) t n key) : Holds rs t n key := by
  simp only [expire] at h
  generalize hm : modifySet rs table name _ = r at h
  cases r with
  | none => exact h
  | some rs' =>
      obtain ⟨T, S, S', hT, hS, hS', rfl⟩ := modifySet_eq_some.mp hm
      cases hS'
      obtain ⟨S₀, hS₀, hk⟩ := h
      by_cases ht : t = table
      · rw [ht, Option.getD_some, setState_insert_self] at hS₀
        rw [ht, Holds, setState_of_lookup hT]
        by_cases hn : n = name
        · rw [hn, AList.lookup_insert] at hS₀
          cases hS₀
          obtain ⟨e, he, hek⟩ := SetState.has_iff.mp hk
          exact ⟨S, hn ▸ hS, SetState.has_iff.mpr ⟨e, List.mem_of_mem_filter he, hek⟩⟩
        · rw [AList.lookup_insert_ne hn] at hS₀
          exact ⟨S₀, hS₀, hk⟩
      · rw [Option.getD_some, setState_insert_ne ht] at hS₀
        exact ⟨S₀, hS₀, hk⟩

/-! ## Tables without a drop -/

/-- The chain's policy accepts and no rule drops. -/
structure ChainState.Accepting (C : ChainState) : Prop where
  policy : C.policy = .accept
  rules : ∀ r ∈ C.rules, .drop ∉ r

/-- So do all chains of all tables. -/
def Accepting (rs : Ruleset A Q) : Prop :=
  ∀ t T, rs.lookup t = some T → ∀ c C, T.chains.lookup c = some C → C.Accepting

/-- A command that adds no drop. -/
def Command.Accepting : Command → Prop
  | .add (.chain _ _ _ _ policy) => policy = .accept
  | .add (.rule _ _ expr) => .drop ∉ expr
  | _ => True

/-- A rule without a drop drops nothing. -/
theorem ruleVerdict_ne_drop {T : Table A Q} {p : Packet A Q} {stmts : List Statement}
    (h : .drop ∉ stmts) : T.ruleVerdict p stmts ≠ some .drop := by
  induction stmts with
  | nil => exact fun hv => nomatch hv
  | cons s rest ih =>
      have hrest : .drop ∉ rest := fun hmem => h (List.mem_cons_of_mem _ hmem)
      cases s with
      | matchIn left right =>
          unfold Table.ruleVerdict
          by_cases hm : T.lookupMatches p left right = true
          · rw [if_pos hm]
            exact ih hrest
          · rw [if_neg hm]
            exact fun hv => nomatch hv
      | accept => exact fun hv => nomatch hv
      | drop => exact absurd List.mem_cons_self h

/-- An accepting chain accepts every packet, whatever the sets hold. -/
theorem chainVerdict_of_accepting {C : ChainState} (h : C.Accepting) (T : Table A Q)
    (p : Packet A Q) : T.chainVerdict C p = .accept := by
  unfold Table.chainVerdict
  cases hv : C.rules.findSome? (T.ruleVerdict p) with
  | none => exact h.policy
  | some v =>
      obtain ⟨r, hr, hrv⟩ := List.exists_of_findSome?_eq_some hv
      cases v with
      | accept => rfl
      | drop => exact absurd hrv (ruleVerdict_ne_drop (h.rules r hr))

/-- **TRANSPARENT**: a ruleset without a drop accepts every packet in every chain. -/
theorem inputChains_of_accepting {rs : Ruleset A Q} (h : Accepting rs) (p : Packet A Q) :
    ∀ c ∈ inputChains rs, c p = .accept := by
  intro c hc
  obtain ⟨t, ht, hc⟩ := List.mem_flatMap.mp hc
  obtain ⟨e, he, rfl⟩ := List.mem_map.mp hc
  exact chainVerdict_of_accepting (h t.1 t.2 (lookup_eq_some_iff.mpr ht) e.1 e.2
    (lookup_eq_some_iff.mpr (List.mem_filter.mp he).1)) t.2 p

omit [DecidableEq A] [DecidableEq Q] in
/-- A ruleset stays accepting with one more accepting table. -/
theorem accepting_insert {rs : Ruleset A Q} {t : String} {T : Table A Q} (h : Accepting rs)
    (hT : ∀ c C, T.chains.lookup c = some C → C.Accepting) : Accepting (rs.insert t T) := by
  intro t' T' hl
  rcases lookup_insert_iff.mp hl with ⟨_, rfl⟩ | ⟨_, hold⟩
  · exact hT
  · exact h t' T' hold

/-- A command that adds no drop keeps the ruleset accepting, case by case. -/
theorem accepting_applyOne {R : Reader A Q} {rs rs' : Ruleset A Q} {c : Command}
    (hc : c.Accepting) (h : Accepting rs) (ha : applyOne R rs c = some rs') : Accepting rs' := by
  cases applyOne_cases ha with
  | tableThere name hin => exact h
  | table name hnew => exact accepting_insert h fun c C hl => nomatch hl
  | setThere table name ty T hT hin => exact h
  | set table name ty T hT hnew => exact accepting_insert h (h table T hT)
  | chainThere table name hook prio policy T hT hin => exact h
  | chain table name hook prio policy T hT hnew =>
      refine accepting_insert h ?_
      intro c C hl
      rcases lookup_insert_iff.mp hl with ⟨_, rfl⟩ | ⟨_, hold⟩
      · exact ⟨hc, fun r hr => nomatch hr⟩
      · exact h table T hT c C hold
  | rule table chain expr T C hT hC =>
      have hold := h table T hT chain C hC
      refine accepting_insert h ?_
      intro c C' hl
      rcases lookup_insert_iff.mp hl with ⟨_, rfl⟩ | ⟨_, hl⟩
      · refine ⟨hold.policy, ?_⟩
        intro r hr
        rcases List.mem_append.mp hr with hr | hr
        · exact hold.rules r hr
        · exact List.mem_singleton.mp hr ▸ hc
      · exact h table T hT c C' hl
  | added table name es T S S' hT hS hadd => exact accepting_insert h (h table T hT)
  | deleted table name es T S S' hT hS hdel => exact accepting_insert h (h table T hT)
  | dropped name hin =>
      intro t T hl
      by_cases ht : t = name
      · rw [ht, AList.lookup_erase] at hl
        cases hl
      · rw [AList.lookup_erase_ne ht] at hl
        exact h t T hl

/-- A batch of accepting commands keeps a ruleset accepting. -/
theorem accepting_apply {R : Reader A Q} {cs : List Command} {rs rs' : Ruleset A Q}
    (hcs : ∀ c ∈ cs, c.Accepting) (h : Accepting rs) (ha : apply R rs cs = some rs') :
    Accepting rs' := by
  induction cs generalizing rs with
  | nil =>
      cases ha
      exact h
  | cons c cs ih =>
      obtain ⟨rs₁, h1, ha⟩ := apply_cons_eq_some.mp ha
      exact ih (fun c' hc' => hcs c' (List.mem_cons_of_mem _ hc'))
        (accepting_applyOne (hcs c List.mem_cons_self) h h1) ha

/-- Expiry adds no rule. -/
theorem accepting_expire {rs : Ruleset A Q} {table name : String} {key : List (Value A Q)}
    (h : Accepting rs) : Accepting (expire rs table name key) := by
  unfold expire
  generalize hm : modifySet rs table name _ = r
  cases r with
  | none => exact h
  | some rs' =>
      obtain ⟨T, S, S', hT, hS, hS', rfl⟩ := modifySet_eq_some.mp hm
      exact accepting_insert h (h table T hT)

end Evaluation

end Netfilter
