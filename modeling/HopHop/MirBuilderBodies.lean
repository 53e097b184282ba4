import HopHop.MirProgramBuilder
import HopHop.MirAllocKeeps

namespace HopHop

/-! What the builder of programs is for: functions with instructions and locals of their own. -/

/-- A function as it was given, with its locals and its instructions. -/
structure MirBody where
  head : MirFunction
  locals : List MirLocal
  insts : List MirInst

/-- The functions that are finished, the one that is open, and the other tables. -/
structure MirBodies where
  tables : MirBuilderTables
  closed : List MirBody
  current : Option MirBody

def MirBodies.init : MirBodies := ⟨.empty, [], none⟩

namespace MirBodies

variable (a : MirBodies)

def all : List MirBody := a.closed ++ a.current.toList

def insts : List MirInst := a.all.flatMap MirBody.insts

def locals : List MirLocal := a.all.flatMap MirBody.locals

/-- A call on the functions themselves. A call is refused where the sum of a table would need 2^32 entries. -/
def call : BuilderCall → Option (Option UInt32 × MirBodies)
  | .table call => (a.tables.call call).map fun (i, tables) => (some i, { a with tables })
  | .addLocal value =>
    a.current.bind fun body =>
      if a.locals.length + 1 < UInt32.size then
        some (some (UInt32.ofNat body.locals.length),
          { a with current := some { body with locals := body.locals ++ [value] } })
      else none
  | .beginFunction value =>
    if a.current.isNone ∧ a.closed.length + 1 < UInt32.size then
      some (some (UInt32.ofNat a.closed.length), { a with current := some ⟨value, [], []⟩ })
    else none
  | .appendInst value =>
    a.current.bind fun body =>
      if a.insts.length + 1 < UInt32.size then
        some (none, { a with current := some { body with insts := body.insts ++ [value] } })
      else none
  | .insertInst functionIndex instIndex value =>
    if a.current.isSome then none
    else
      (a.closed[functionIndex.toNat]?).bind fun body =>
        if instIndex.toNat ≤ body.insts.length ∧ a.insts.length + 1 < UInt32.size then
          some (none, { a with
            closed := a.closed.modify functionIndex.toNat fun body =>
              { body with insts := body.insts.insertIdx instIndex.toNat value } })
        else none
  | .endFunction => a.current.map fun body => (none, { a with closed := a.closed ++ [body], current := none })

end MirBodies

/-- The entry of a function whose instructions and locals begin at these places. -/
def MirBody.placed (body : MirBody) (instStart localStart : Nat) : MirFunction :=
  { body.head with
    instStart := UInt32.ofNat instStart
    instLen := UInt32.ofNat body.insts.length
    localStart := UInt32.ofNat localStart
    localCount := UInt32.ofNat body.locals.length }

/-- The entries of functions that lie one behind the other. -/
def layout : Nat → Nat → List MirBody → List MirFunction
  | _, _, [] => []
  | instStart, localStart, body :: rest =>
    body.placed instStart localStart ::
      layout (instStart + body.insts.length) (localStart + body.locals.length) rest

/-- The program has these functions in this order, their instructions one behind the other, and each finds its own
instructions and locals where its entry says. -/
structure MirProgram.Holds (program : MirProgram) (bodies : List MirBody) : Prop where
  count : program.funcs.length = bodies.length
  tiled : Tiled 0 program.funcs program.insts.length
  found : ∀ (k : Nat) (body : MirBody), bodies[k]? = some body → ∃ fn, program.funcs[k]? = some fn ∧
    fn.code program = body.insts ∧ fn.localMeta program = body.locals ∧
    fn = body.placed fn.instStart.toNat fn.localStart.toNat

/-- The builder holds these functions. -/
structure MirProgramBuilder.Represents (b : MirProgramBuilder) (a : MirBodies) : Prop where
  tables : b.tables = a.tables
  insts : b.insts.val = a.insts
  locals : b.locals.val = a.locals
  funcs : b.funcs.val = layout 0 0 a.all
  openFunc : b.openFunc = a.current.map fun _ => a.closed.length

section Lists

variable {α : Type}

theorem modify_middle (front back : List α) (x : α) (f : α → α) :
    (front ++ x :: back).modify front.length f = front ++ f x :: back := by
  induction front with
  | nil => rfl
  | cons y front ih => exact congrArg (y :: ·) ih

theorem insertIdx_front (l back : List α) {i : Nat} (inside : i ≤ l.length) (x : α) :
    (l ++ back).insertIdx i x = l.insertIdx i x ++ back := by
  induction l generalizing i with
  | nil =>
    obtain rfl := Nat.le_zero.mp inside
    rfl
  | cons y l ih =>
    cases i with
    | zero => rfl
    | succ i =>
      rw [List.cons_append, List.insertIdx_succ_cons, ih (Nat.le_of_succ_le_succ inside), List.insertIdx_succ_cons,
        List.cons_append]

theorem insertIdx_middle (front l back : List α) {i : Nat} (inside : i ≤ l.length) (x : α) :
    (front ++ (l ++ back)).insertIdx (front.length + i) x = front ++ (l.insertIdx i x ++ back) := by
  induction front with
  | nil =>
    rw [List.nil_append, List.length_nil, Nat.zero_add, insertIdx_front l back inside]
    rfl
  | cons y front ih =>
    rw [List.cons_append, List.length_cons, Nat.add_right_comm, List.insertIdx_succ_cons, ih]
    rfl

theorem split_at {l : List α} {i : Nat} {x : α} (found : l[i]? = some x) :
    ∃ front back, l = front ++ x :: back ∧ front.length = i := by
  obtain ⟨inside, rfl⟩ := List.getElem?_eq_some_iff.mp found
  refine ⟨l.take i, l.drop (i + 1), ?_, List.length_take_of_le (Nat.le_of_lt inside)⟩
  rw [← List.drop_eq_getElem_cons inside, List.take_append_drop]

end Lists

theorem layout_append (i l : Nat) (front back : List MirBody) :
    layout i l (front ++ back) = layout i l front ++
      layout (i + (front.flatMap MirBody.insts).length) (l + (front.flatMap MirBody.locals).length) back := by
  induction front generalizing i l with
  | nil => rfl
  | cons body front ih =>
    rw [List.cons_append, layout, ih, layout, List.flatMap_cons, List.flatMap_cons, List.length_append,
      List.length_append, ← Nat.add_assoc, ← Nat.add_assoc]
    rfl

theorem length_layout (i l : Nat) (bodies : List MirBody) : (layout i l bodies).length = bodies.length := by
  induction bodies generalizing i l with
  | nil => rfl
  | cons body rest ih => exact congrArg Nat.succ (ih _ _)

/-- The entry of the function that is open stands behind all others. -/
theorem layout_concat (closed : List MirBody) (body : MirBody) :
    layout 0 0 (closed ++ [body]) = layout 0 0 closed ++
      [body.placed (closed.flatMap MirBody.insts).length (closed.flatMap MirBody.locals).length] := by
  rw [layout_append, Nat.zero_add, Nat.zero_add]
  rfl

theorem ofNat_succ (n : Nat) : UInt32.ofNat n + 1 = UInt32.ofNat (n + 1) := by
  rw [UInt32.ofNat_add]
  rfl

theorem toNat_ofNat_below {n : Nat} (small : n < UInt32.size) : (UInt32.ofNat n).toNat = n :=
  UInt32.toNat_ofNat_of_lt small

theorem ofNat_sub {n m : Nat} : UInt32.ofNat (n + m) - UInt32.ofNat n = UInt32.ofNat m := by
  rw [UInt32.ofNat_add, UInt32.add_comm, UInt32.add_sub_cancel]

namespace MirProgramBuilder

/-- The functions before the changed one keep their entries. -/
theorem shift_front (k : Nat) (absIndex : UInt32) (i l : Nat) (front : List MirBody) (below : front.length ≤ k) :
    (layout i l front).mapIdx (shiftFunction k absIndex) = layout i l front := by
  apply List.ext_getElem?
  intro j
  rw [List.getElem?_mapIdx]
  rcases found : (layout i l front)[j]? with _ | fn
  · rfl
  · have inside := (List.getElem?_eq_some_iff.mp found).1
    rw [length_layout] at inside
    rw [Option.map_some, shiftFunction, if_neg (by omega), if_neg (by omega)]

/-- Those behind it begin one instruction later. -/
theorem shift_back (k m : Nat) (behind : k < m) {absIndex : UInt32} (i l : Nat) (back : List MirBody)
    (after : absIndex.toNat ≤ i) (small : i + (back.flatMap MirBody.insts).length < UInt32.size) :
    (layout i l back).mapIdx (fun j => shiftFunction k absIndex (j + m)) = layout (i + 1) l back := by
  induction back generalizing i l m with
  | nil => rfl
  | cons body back ih =>
    rw [List.flatMap_cons, List.length_append] at small
    have start : absIndex ≤ UInt32.ofNat i := by
      rw [UInt32.le_iff_toNat_le, toNat_ofNat_below (by omega)]
      exact after
    have moved : shiftFunction k absIndex (0 + m) (body.placed i l) = body.placed (i + 1) l := by
      rw [shiftFunction, if_neg (by omega), if_pos ⟨by omega, start⟩, MirBody.placed, MirBody.placed, ofNat_succ]
    have rest : (fun j => shiftFunction k absIndex (j + 1 + m)) = fun j => shiftFunction k absIndex (j + (m + 1)) := by
      funext j
      rw [Nat.add_assoc, Nat.add_comm 1 m]
    rw [layout, List.mapIdx_cons, moved, rest, ih (m + 1) (by omega) _ _ (by omega) (by omega), layout,
      Nat.add_right_comm i 1]

/-- An instruction more in one function: its entry is longer and all entries behind it move. -/
theorem shift_middle (front back : List MirBody) (body : MirBody) {instIndex : UInt32} (value : MirInst)
    (inside : instIndex.toNat ≤ body.insts.length)
    (small : ((front ++ body :: back).flatMap MirBody.insts).length < UInt32.size) :
    (layout 0 0 (front ++ body :: back)).mapIdx (shiftFunction front.length
        (UInt32.ofNat (front.flatMap MirBody.insts).length + instIndex)) =
      layout 0 0 (front ++ { body with insts := body.insts.insertIdx instIndex.toNat value } :: back) := by
  rw [List.flatMap_append, List.flatMap_cons, List.length_append, List.length_append] at small
  have place : (UInt32.ofNat (front.flatMap MirBody.insts).length + instIndex).toNat =
      (front.flatMap MirBody.insts).length + instIndex.toNat := by
    rw [UInt32.toNat_add, toNat_ofNat_below (by omega), Nat.mod_eq_of_lt]
    have bound : (front.flatMap MirBody.insts).length + body.insts.length < UInt32.size := by omega
    exact Nat.lt_of_le_of_lt (Nat.add_le_add_left inside _) bound
  have longer : shiftFunction front.length (UInt32.ofNat (front.flatMap MirBody.insts).length + instIndex)
      front.length
      (body.placed (front.flatMap MirBody.insts).length (front.flatMap MirBody.locals).length) =
      MirBody.placed { body with insts := body.insts.insertIdx instIndex.toNat value }
        (front.flatMap MirBody.insts).length (front.flatMap MirBody.locals).length := by
    rw [shiftFunction, if_pos rfl, MirBody.placed, MirBody.placed, ofNat_succ,
      List.length_insertIdx_of_le_length inside]
  have rest (absIndex : UInt32) : (fun j => shiftFunction front.length absIndex (j + 1 + front.length)) =
      fun j => shiftFunction front.length absIndex (j + (front.length + 1)) := by
    funext j
    rw [Nat.add_assoc, Nat.add_comm 1]
  rw [layout_append, layout_append, List.mapIdx_append, shift_front _ _ _ _ _ (Nat.le_refl _), length_layout, layout,
    List.mapIdx_cons, Nat.zero_add, Nat.zero_add, Nat.zero_add, longer, rest,
    shift_back _ _ (Nat.lt_succ_self _) _ _ _ (by omega) (by omega), layout,
    List.length_insertIdx_of_le_length inside, Nat.add_assoc]

/-- One answers where the other does, with the same index, and holds afterwards what the other has. -/
def Answers : Option (Option UInt32 × MirProgramBuilder) → Option (Option UInt32 × MirBodies) → Prop :=
  Option.Rel fun x y => x.1 = y.1 ∧ x.2.Represents y.2

variable {b : MirProgramBuilder} {a : MirBodies}

/-- The function that is open lies behind the closed ones. -/
theorem Represents.opened (holds : b.Represents a) {body : MirBody} (isOpen : a.current = some body) :
    b.openFunc = some a.closed.length ∧ b.insts.val = a.closed.flatMap MirBody.insts ++ body.insts ∧
      b.locals.val = a.closed.flatMap MirBody.locals ++ body.locals ∧
      b.funcs.val = layout 0 0 a.closed ++
        [body.placed (a.closed.flatMap MirBody.insts).length (a.closed.flatMap MirBody.locals).length] := by
  have all : a.all = a.closed ++ [body] := by rw [MirBodies.all, isOpen]; rfl
  have insts := holds.insts
  have locals := holds.locals
  have funcs := holds.funcs
  rw [MirBodies.insts, all, List.flatMap_append, List.flatMap_singleton] at insts
  rw [MirBodies.locals, all, List.flatMap_append, List.flatMap_singleton] at locals
  rw [all, layout_concat] at funcs
  refine ⟨?_, insts, locals, funcs⟩
  rw [holds.openFunc, isOpen]
  rfl

/-- And what lies so is represented. -/
theorem Represents.of_opened {body : MirBody} (isOpen : a.current = some body) (tables : b.tables = a.tables)
    (openFunc : b.openFunc = some a.closed.length)
    (insts : b.insts.val = a.closed.flatMap MirBody.insts ++ body.insts)
    (locals : b.locals.val = a.closed.flatMap MirBody.locals ++ body.locals)
    (funcs : b.funcs.val = layout 0 0 a.closed ++
      [body.placed (a.closed.flatMap MirBody.insts).length (a.closed.flatMap MirBody.locals).length]) :
    b.Represents a := by
  have all : a.all = a.closed ++ [body] := by rw [MirBodies.all, isOpen]; rfl
  constructor
  case tables => exact tables
  case insts => rw [insts, MirBodies.insts, all, List.flatMap_append, List.flatMap_singleton]
  case locals => rw [locals, MirBodies.locals, all, List.flatMap_append, List.flatMap_singleton]
  case funcs => rw [funcs, all, layout_concat]
  case openFunc => rw [openFunc, isOpen]; rfl

theorem Represents.init : MirProgramBuilder.init.Represents .init := ⟨rfl, rfl, rfl, rfl, rfl⟩

/-- The entry of the open function is the last one. -/
theorem modify_last {table : MirArray MirFunction} {closed : List MirBody} {fn : MirFunction}
    (last : table.val = layout 0 0 closed ++ [fn]) (f : MirFunction → MirFunction) :
    (table.modify closed.length f).val = layout 0 0 closed ++ [f fn] := by
  have entry := modify_middle (layout 0 0 closed) [] fn f
  rw [length_layout] at entry
  exact (congrArg (fun l => l.modify closed.length f) last).trans entry

/-- A function that goes up to the end of the instructions. -/
theorem closeRange_placed {insts front : List MirInst} (body : MirBody) (last : insts = front ++ body.insts)
    (localStart : Nat) (instLen : UInt32) :
    closeRange insts { body.placed front.length localStart with instLen := instLen } =
      body.placed front.length localStart := by
  have length : UInt32.ofNat insts.length - UInt32.ofNat front.length = UInt32.ofNat body.insts.length := by
    rw [last, List.length_append, ofNat_sub]
  exact congrArg (fun n => { body.placed front.length localStart with instLen := n }) length

theorem append_some {α : Type} (table : MirArray α) (value : α) (room : table.val.length + 1 < UInt32.size) :
    ∃ after : MirArray α, table.append value = some (UInt32.ofNat table.val.length, after) ∧
      after.val = table.val ++ [value] := by
  rw [MirArray.append, dif_pos room]
  exact ⟨_, rfl, rfl⟩

theorem append_none {α : Type} (table : MirArray α) (value : α) (full : ¬table.val.length + 1 < UInt32.size) :
    table.append value = none := by
  rw [MirArray.append, dif_neg full]

theorem Represents.table (holds : b.Represents a) (call : TableCall) :
    Answers (b.call (.table call)) (a.call (.table call)) := by
  rw [MirProgramBuilder.call, MirBodies.call, holds.tables]
  rcases a.tables.call call with _ | ⟨i, tables⟩
  · exact .none
  · exact .some ⟨rfl, rfl, holds.insts, holds.locals, holds.funcs, holds.openFunc⟩

theorem Represents.addLocal (holds : b.Represents a) (value : MirLocal) :
    Answers (b.call (.addLocal value)) (a.call (.addLocal value)) := by
  rw [MirProgramBuilder.call, MirBodies.call, MirProgramBuilder.addLocal]
  rcases isOpen : a.current with _ | body
  · rw [holds.openFunc, isOpen]
    exact .none
  · obtain ⟨openFunc, insts, locals, funcs⟩ := holds.opened isOpen
    have found : b.funcs.val[a.closed.length]? =
        some (body.placed (a.closed.flatMap MirBody.insts).length (a.closed.flatMap MirBody.locals).length) := by
      rw [funcs, List.getElem?_append_right (by rw [length_layout]), length_layout, Nat.sub_self]
      rfl
    simp only [openFunc, Option.bind_eq_bind, Option.bind_some, found, ← holds.locals]
    by_cases room : b.locals.val.length + 1 < UInt32.size
    · obtain ⟨after, appended, is⟩ := append_some b.locals value room
      rw [appended, if_pos room]
      have entry := modify_last funcs fun fn => { fn with localCount := fn.localCount + 1 }
      refine .some ⟨rfl, .of_opened rfl holds.tables rfl insts ?_ (entry.trans ?_)⟩
      · rw [is, locals, List.append_assoc]
      · rw [MirBody.placed, MirBody.placed, ofNat_succ, List.length_append, List.length_singleton]
    · rw [append_none b.locals value room, if_neg room]
      exact .none

theorem Represents.beginFunction (holds : b.Represents a) (value : MirFunction) :
    Answers (b.call (.beginFunction value)) (a.call (.beginFunction value)) := by
  rw [MirProgramBuilder.call, MirBodies.call, MirProgramBuilder.beginFunction]
  rcases isOpen : a.current with _ | body
  · have all : a.all = a.closed := by rw [MirBodies.all, isOpen]; exact List.append_nil _
    have insts := holds.insts
    have locals := holds.locals
    have funcs := holds.funcs
    rw [MirBodies.insts, all] at insts
    rw [MirBodies.locals, all] at locals
    rw [all] at funcs
    have count : b.funcs.val.length = a.closed.length := by rw [funcs, length_layout]
    have shut : b.openFunc = none := by rw [holds.openFunc, isOpen]; rfl
    rw [shut, Option.isSome_none, if_neg Bool.false_ne_true]
    by_cases room : a.closed.length + 1 < UInt32.size
    · obtain ⟨after, appended, is⟩ := append_some b.funcs
        { value with
          instStart := UInt32.ofNat b.insts.val.length
          instLen := 0
          localStart := UInt32.ofNat b.locals.val.length
          localCount := 0 } (by rw [count]; exact room)
      simp only [appended, Option.bind_eq_bind, Option.bind_some]
      rw [if_pos ⟨rfl, room⟩, count]
      refine .some ⟨rfl, .of_opened rfl holds.tables ?_ ?_ ?_ ?_⟩
      · exact congrArg some (toNat_ofNat_below (Nat.lt_of_succ_lt room))
      · rw [insts, List.append_nil]
      · rw [locals, List.append_nil]
      · rw [is, funcs, insts, locals]
        rfl
    · simp only [append_none b.funcs _ (count ▸ room : ¬b.funcs.val.length + 1 < UInt32.size)]
      rw [if_neg (not_and_of_not_right _ room)]
      exact .none
  · rw [(holds.opened isOpen).1]
    exact .none

theorem Represents.appendInst (holds : b.Represents a) (value : MirInst) :
    Answers (b.call (.appendInst value)) (a.call (.appendInst value)) := by
  rw [MirProgramBuilder.call, MirBodies.call, MirProgramBuilder.appendInst]
  rcases isOpen : a.current with _ | body
  · rw [holds.openFunc, isOpen]
    exact .none
  · obtain ⟨openFunc, insts, locals, funcs⟩ := holds.opened isOpen
    simp only [openFunc, Option.bind_eq_bind, Option.bind_some, ← holds.insts]
    by_cases room : b.insts.val.length + 1 < UInt32.size
    · obtain ⟨after, appended, is⟩ := append_some b.insts value room
      rw [appended, if_pos room]
      have extended : after.val = a.closed.flatMap MirBody.insts ++ (body.insts ++ [value]) := by
        rw [is, insts, List.append_assoc]
      have entry := modify_last funcs (closeRange after.val)
      refine .some ⟨rfl, .of_opened rfl holds.tables rfl extended locals (entry.trans ?_)⟩
      exact congrArg (fun fn => layout 0 0 a.closed ++ [fn])
        (closeRange_placed { body with insts := body.insts ++ [value] } extended _ _)
    · rw [append_none b.insts value room, if_neg room]
      exact .none

theorem Represents.endFunction (holds : b.Represents a) : Answers (b.call .endFunction) (a.call .endFunction) := by
  rw [MirProgramBuilder.call, MirBodies.call, MirProgramBuilder.endFunction]
  rcases isOpen : a.current with _ | body
  · rw [holds.openFunc, isOpen]
    exact .none
  · obtain ⟨openFunc, insts, locals, funcs⟩ := holds.opened isOpen
    have entry := modify_last funcs (closeRange b.insts.val)
    rw [openFunc]
    refine .some ⟨rfl, holds.tables, ?_, ?_, entry.trans ?_, rfl⟩
    · exact insts.trans (by rw [MirBodies.insts, MirBodies.all, Option.toList_none, List.append_nil,
        List.flatMap_append, List.flatMap_singleton])
    · exact locals.trans (by rw [MirBodies.locals, MirBodies.all, Option.toList_none, List.append_nil,
        List.flatMap_append, List.flatMap_singleton])
    · have same :=
        closeRange_placed body insts (a.closed.flatMap MirBody.locals).length (UInt32.ofNat body.insts.length)
      rw [MirBodies.all, Option.toList_none, List.append_nil, layout_concat]
      exact congrArg (fun fn => layout 0 0 a.closed ++ [fn]) same

theorem Represents.insertInst (holds : b.Represents a) (functionIndex instIndex : UInt32) (value : MirInst) :
    Answers (b.call (.insertInst functionIndex instIndex value))
      (a.call (.insertInst functionIndex instIndex value)) := by
  rw [MirProgramBuilder.call, MirBodies.call, MirProgramBuilder.insertInst]
  rcases isOpen : a.current with _ | body
  · have all : a.all = a.closed := by rw [MirBodies.all, isOpen]; exact List.append_nil _
    have shut : b.openFunc = none := by rw [holds.openFunc, isOpen]; rfl
    rw [shut, Option.isSome_none, Option.isSome_none, if_neg Bool.false_ne_true, if_neg Bool.false_ne_true]
    rcases found : a.closed[functionIndex.toNat]? with _ | body
    · have outside : b.funcs.val[functionIndex.toNat]? = none := by
        rw [holds.funcs, all, List.getElem?_eq_none_iff, length_layout]
        exact List.getElem?_eq_none_iff.mp found
      rw [outside]
      exact .none
    · obtain ⟨front, back, split, index⟩ := split_at found
      have funcs := holds.funcs
      have insts := holds.insts
      have locals := holds.locals
      rw [all, split] at funcs
      rw [MirBodies.insts, all, split] at insts
      rw [MirBodies.locals, all, split] at locals
      have entry : b.funcs.val[functionIndex.toNat]? = some
          (body.placed (front.flatMap MirBody.insts).length (front.flatMap MirBody.locals).length) := by
        rw [funcs, layout_append, List.getElem?_append_right (by rw [length_layout, index]), length_layout, index,
          Nat.sub_self, Nat.zero_add, Nat.zero_add]
        rfl
      have total := b.insts.property
      rw [insts, List.flatMap_append, List.flatMap_cons, List.length_append, List.length_append] at total
      have inside : ¬(body.placed (front.flatMap MirBody.insts).length (front.flatMap MirBody.locals).length).instLen <
          instIndex ↔ instIndex.toNat ≤ body.insts.length := by
        rw [MirBody.placed, UInt32.lt_iff_toNat_lt, toNat_ofNat_below (by omega), Nat.not_lt]
      rw [entry, Option.bind_some]
      by_cases place : instIndex.toNat ≤ body.insts.length
      · have space : a.insts.length = b.insts.val.length := by rw [holds.insts]
        simp only [if_neg (inside.mpr place), space]
        by_cases room : b.insts.val.length + 1 < UInt32.size
        · rw [dif_pos room, if_pos ⟨place, room⟩]
          have absolute : ((body.placed (front.flatMap MirBody.insts).length
              (front.flatMap MirBody.locals).length).instStart + instIndex).toNat =
                (front.flatMap MirBody.insts).length + instIndex.toNat := by
            rw [MirBody.placed, UInt32.toNat_add, toNat_ofNat_below (by omega), Nat.mod_eq_of_lt]
            have bound : (front.flatMap MirBody.insts).length + body.insts.length < UInt32.size := by omega
            exact Nat.lt_of_le_of_lt (Nat.add_le_add_left place _) bound
          have changed := modify_middle front back body fun body =>
            { body with insts := body.insts.insertIdx instIndex.toNat value }
          rw [← split, index] at changed
          simp only [changed]
          refine .some ⟨rfl, ?_⟩
          constructor
          case tables => exact holds.tables
          case insts =>
            rw [MirBodies.insts, MirBodies.all]
            simp only [absolute, insts, Option.toList_none, List.append_nil, List.flatMap_append, List.flatMap_cons]
            exact insertIdx_middle _ _ _ place value
          case locals =>
            rw [MirBodies.locals, MirBodies.all]
            simp only [locals, Option.toList_none, List.append_nil, List.flatMap_append, List.flatMap_cons]
          case funcs =>
            rw [MirBodies.all, Option.toList_none, List.append_nil]
            simp only [funcs, ← index]
            exact shift_middle front back body value place
              (by rw [List.flatMap_append, List.flatMap_cons, List.length_append, List.length_append]; exact total)
          case openFunc => rfl
        · rw [dif_neg room, if_neg (not_and_of_not_right _ room)]
          exact .none
      · simp only [if_pos (Decidable.of_not_not fun small => place (inside.mp small))]
        rw [if_neg (not_and_of_not_left _ place)]
        exact .none
  · rw [(holds.opened isOpen).1]
    exact .none

/-- Each call of the builder does to the functions what its name says. -/
theorem Represents.call (holds : b.Represents a) (call : BuilderCall) : Answers (b.call call) (a.call call) := by
  cases call with
  | table call => exact holds.table call
  | addLocal value => exact holds.addLocal value
  | beginFunction value => exact holds.beginFunction value
  | appendInst value => exact holds.appendInst value
  | insertInst functionIndex instIndex value => exact holds.insertInst functionIndex instIndex value
  | endFunction => exact holds.endFunction

/-- Whatever is called in whatever order, the builder fails where the functions do, answers the same indices, and its
tables hold the functions one behind the other. -/
theorem runCalls_represents (calls : List BuilderCall) (holds : b.Represents a) :
    Option.Rel (fun x y => x.1 = y.1 ∧ x.2.Represents y.2) (runCalls MirProgramBuilder.call b calls)
      (runCalls MirBodies.call a calls) := by
  induction calls generalizing b a with
  | nil => exact .some ⟨rfl, holds⟩
  | cons call calls ih =>
    have one := holds.call call
    rw [runCalls, runCalls]
    rcases first : b.call call with _ | ⟨i, b'⟩ <;> rcases second : a.call call with _ | ⟨j, a'⟩ <;>
      rw [first, second] at one
    · exact .none
    · cases one
    · cases one
    · obtain ⟨same, next⟩ : i = j ∧ b'.Represents a' := by
        cases one with | some h => exact h
      subst same
      have rest := ih next
      simp only [Option.bind_eq_bind, Option.bind_some]
      rcases third : runCalls MirProgramBuilder.call b' calls with _ | ⟨is, b''⟩ <;>
        rcases fourth : runCalls MirBodies.call a' calls with _ | ⟨js, a''⟩ <;> rw [third, fourth] at rest
      · exact .none
      · cases rest
      · cases rest
      · obtain ⟨others, final⟩ : is = js ∧ b''.Represents a'' := by
          cases rest with | some h => exact h
        exact .some ⟨by rw [others], final⟩

end MirProgramBuilder

/-- The entries lie one behind the other. -/
theorem layout_tiled (i l : Nat) (bodies : List MirBody)
    (small : i + (bodies.flatMap MirBody.insts).length < UInt32.size) :
    Tiled i (layout i l bodies) (i + (bodies.flatMap MirBody.insts).length) := by
  induction bodies generalizing i l with
  | nil => rfl
  | cons body rest ih =>
    rw [List.flatMap_cons, List.length_append] at small ⊢
    have start : (UInt32.ofNat i).toNat = i := toNat_ofNat_below (by omega)
    have length : (UInt32.ofNat body.insts.length).toNat = body.insts.length := toNat_ofNat_below (by omega)
    refine ⟨start, ?_⟩
    rw [MirBody.placed, length, ← Nat.add_assoc]
    exact ih _ _ (by omega)

theorem slice_middle {α : Type} (front l back : List α) :
    ((front ++ (l ++ back)).drop front.length).take l.length = l := by
  rw [List.drop_left, List.take_left]

/-- What the builder hands over at the end has the functions it holds. -/
theorem MirProgramBuilder.Represents.finish {b : MirProgramBuilder} {a : MirBodies} (holds : b.Represents a) :
    b.finish.Holds a.all := by
  have insts : b.finish.insts = a.all.flatMap MirBody.insts := holds.insts
  have locals : b.finish.locals = a.all.flatMap MirBody.locals := holds.locals
  have funcs : b.finish.funcs = layout 0 0 a.all := holds.funcs
  have manyInsts : (a.all.flatMap MirBody.insts).length < UInt32.size := by rw [← insts]; exact b.insts.property
  have manyLocals : (a.all.flatMap MirBody.locals).length < UInt32.size := by rw [← locals]; exact b.locals.property
  constructor
  case count => rw [funcs, length_layout]
  case tiled =>
    have tiled := layout_tiled 0 0 a.all (by rw [Nat.zero_add]; exact manyInsts)
    rw [Nat.zero_add] at tiled
    rw [funcs, insts]
    exact tiled
  case found =>
    intro k body found
    obtain ⟨front, back, split, rfl⟩ := split_at found
    rw [split, List.flatMap_append, List.flatMap_cons] at insts locals
    rw [split, layout_append, Nat.zero_add, Nat.zero_add, layout] at funcs
    rw [split, List.flatMap_append, List.flatMap_cons, List.length_append, List.length_append] at manyInsts manyLocals
    refine ⟨body.placed (front.flatMap MirBody.insts).length (front.flatMap MirBody.locals).length, ?_, ?_, ?_, ?_⟩
    · rw [funcs, List.getElem?_append_right (by rw [length_layout]), length_layout, Nat.sub_self]
      rfl
    · rw [MirFunction.code, insts, MirBody.placed, toNat_ofNat_below (by omega), toNat_ofNat_below (by omega),
        slice_middle]
    · rw [MirFunction.localMeta, locals, MirBody.placed, toNat_ofNat_below (by omega), toNat_ofNat_below (by omega),
        slice_middle]
    · have start : (UInt32.ofNat (front.flatMap MirBody.insts).length).toNat = (front.flatMap MirBody.insts).length :=
        toNat_ofNat_below (by omega)
      have slots : (UInt32.ofNat (front.flatMap MirBody.locals).length).toNat = (front.flatMap MirBody.locals).length :=
        toNat_ofNat_below (by omega)
      rw [MirBody.placed, start, slots]
      rfl

end HopHop
