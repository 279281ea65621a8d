import RowQuery.Json.Expr
import RowQuery.Json.Sql
import RowQuery.Proofs.JsonTrees

set_option autoImplicit false

/-! # What is stored is read back

Values, expressions and tables have a stored form, which is the text of a JSON tree. The text is
read as that tree (`Json.ofText?_text`), and the tree is read as what it was made of if it nests no
deeper than readers go and all doubles in it are finite; otherwise it is not read at all
(`Value.ofJson?_toJson`, `Expr.ofJson?_toJson`). Nothing in between happens: no stored text is read
as something else than what was stored.

How doubles are written and read is left open. All that is used is that the text of a finite double
is read as that double (`Double.ReadsBack`).
-/

namespace RowQuery

/-! ## Doubles -/

namespace Double

/-- Whether the number is neither infinite nor NaN. -/
def isFinite (x : Float) : Bool :=
  match parts x with
  | .notANumber => false
  | .infinity _ => false
  | _ => true

/-- The text of the number is read as the same number. -/
def ReadsBack (x : Float) : Prop :=
  (Json.ofText? (Value.doubleToJson x).text).bind Json.toDouble? = some x

instance (x : Float) : Decidable (ReadsBack x) := inferInstanceAs (Decidable (_ = _))

theorem isSome_ofDouble? (x : Float) : (Json.Number.ofDouble? x).isSome = isFinite x := by
  unfold Json.Number.ofDouble? isFinite magnitude
  cases parts x <;> rfl

end Double

namespace Value

theorem doubleToJson_of_not_isFinite {x : Float} (h : Double.isFinite x = false) :
    doubleToJson x = .null := by
  rw [← Double.isSome_ofDouble?, Option.isSome_eq_false_iff, Option.isNone_iff_eq_none] at h
  rw [doubleToJson, h]

/-- A double whose text is read back at all is written with all parts that a number must have. -/
theorem doubleToJson_of_readsBack {x : Float} (hfinite : Double.isFinite x = true)
    (h : Double.ReadsBack x) :
    (doubleToJson x).Legible ∧ (doubleToJson x).toDouble? = some x := by
  rw [← Double.isSome_ofDouble?, Option.isSome_iff_exists] at hfinite
  obtain ⟨n, hn⟩ := hfinite
  have hdigital := Json.Number.digital_ofDouble? hn
  have hnumber : doubleToJson x = .number n := by
    rw [doubleToJson, hn]
  rw [Double.ReadsBack, hnumber, Json.text, Json.ofText?_number hdigital] at h
  rw [hnumber]
  by_cases hlegible : n.isLegible = true
  · rw [if_pos hlegible] at h
    exact ⟨⟨hdigital, hlegible⟩, h⟩
  · -- a number with missing parts would not have been read
    rw [if_neg hlegible] at h
    cases h

/-! ## Values -/

mutual

/-- The doubles in a value. -/
def doubles : Value → List Float
  | .float64 x => [x]
  | .tuple values => doublesAll values
  | .struct fields => doublesFields fields
  | _ => []

def doublesAll : List Value → List Float
  | [] => []
  | v :: rest => doubles v ++ doublesAll rest

def doublesFields : List (String × Value) → List Float
  | [] => []
  | (_, v) :: rest => doubles v ++ doublesFields rest

end

/-- The text of every finite double among these is read as that double. -/
def ReadBack (xs : List Float) : Prop :=
  ∀ x ∈ xs, Double.isFinite x = true → Double.ReadsBack x

instance (xs : List Float) : Decidable (ReadBack xs) :=
  inferInstanceAs (Decidable (∀ x ∈ xs, Double.isFinite x = true → Double.ReadsBack x))

theorem ReadBack.left {xs ys : List Float} (h : ReadBack (xs ++ ys)) : ReadBack xs :=
  fun x hx => h x (List.mem_append_left ys hx)

theorem ReadBack.right {xs ys : List Float} (h : ReadBack (xs ++ ys)) : ReadBack ys :=
  fun x hx => h x (List.mem_append_right xs hx)

theorem legible_doubleToJson {x : Float} (h : ReadBack [x]) : (doubleToJson x).Legible := by
  cases hfinite : Double.isFinite x with
  | true => exact (doubleToJson_of_readsBack hfinite (h x (.head _) hfinite)).1
  | false =>
      rw [doubleToJson_of_not_isFinite hfinite]
      trivial

mutual

/-- The stored form of a value has a text that can be read. -/
theorem legible_toJson (v : Value) (h : ReadBack v.doubles) : v.toJson.Legible := by
  match v with
  | .null => exact Json.legible_ofString "Null"
  | .boolean b => exact Json.legible_member trivial
  | .int64 n => exact Json.legible_member (Json.Number.legible_digitsOf _ _)
  | .float64 x => exact Json.legible_member (legible_doubleToJson h)
  | .utf8 s => exact Json.legible_member (Json.legible_ofString s)
  | .tuple values =>
      have hitems : Json.LegibleAll (toJsonAll values) := legible_toJsonAll values h
      exact Json.legible_member hitems
  | .struct fields =>
      have hitems : Json.LegibleAll (toJsonFields fields) := legible_toJsonFields fields h
      exact Json.legible_member (Json.legible_member hitems)

theorem legible_toJsonAll (values : List Value) (h : ReadBack (doublesAll values)) :
    Json.LegibleAll (toJsonAll values) := by
  match values with
  | [] => trivial
  | v :: rest => exact ⟨legible_toJson v h.left, legible_toJsonAll rest h.right⟩

theorem legible_toJsonFields (fields : List (String × Value))
    (h : ReadBack (doublesFields fields)) : Json.LegibleAll (toJsonFields fields) := by
  match fields with
  | [] => trivial
  | (name, v) :: rest =>
      exact ⟨⟨Json.legible_ofString name, legible_toJson v h.left, trivial⟩,
        legible_toJsonFields rest h.right⟩

end

/-! ### Reading values -/

section Cases

variable (room : Nat) (name : String) (content : Json)

/-- What a variant is depends on its name. -/
theorem ofJson?_member : ofJson? (room + 1) (.ofMembers [(name, content)]) =
    (match name with
    | "Null" => if content.isNull then some .null else none
    | "Boolean" => content.toBool?.map .boolean
    | "Int64" => content.toInt64?.map .int64
    | "Float64" => content.toDouble?.map .float64
    | "Utf8" => content.toText?.map .utf8
    | "Tuple" => (valuesOf? room content).map .tuple
    | "Struct" => (structOf? room content).map .struct
    | _ => none) := by
  have hname := Json.toText?_ofString name
  rw [Json.ofString] at hname
  rw [Json.ofMembers, List.map_cons, List.map_nil, ofJson?, hname]
  rfl

theorem valuesOf?_array {items : List Json} {finite : Bool} {values : List Value}
    (h : ∀ room, items.mapM (ofJson? room)
      = Json.granted finite (Json.depthAll items) room values) :
    valuesOf? room (.array items)
      = Json.granted finite (Json.array items).depth room values := by
  refine Json.granted_array (valuesOf? · _) rfl (fun room => ?_) room
  rw [valuesOf?, h]

theorem fieldsOf?_array {items : List Json} {finite : Bool} {fields : List (String × Value)}
    (h : ∀ room, items.mapM (fieldOf? room)
      = Json.granted finite (Json.depthAll items) room fields) :
    fieldsOf? room (.array items)
      = Json.granted finite (Json.array items).depth room fields := by
  refine Json.granted_array (fieldsOf? · _) rfl (fun room => ?_) room
  rw [fieldsOf?, h]

theorem structOf?_ofMembers {finite : Bool} {fields : List (String × Value)}
    (h : ∀ room, fieldsOf? room content = Json.granted finite content.depth room fields) :
    structOf? room (.ofMembers [("fields", content)])
      = Json.granted finite (Json.ofMembers [("fields", content)]).depth room fields := by
  have hfields := Json.structure?_ofMembers [("fields", content)] (by simp)
  rw [List.map_singleton, List.map_singleton] at hfields
  refine Json.granted_member "fields" (structOf? · _) rfl (fun room => ?_) room
  rw [structOf?, hfields, ← h]
  rfl

theorem fieldOf?_array {v : Value} {finite : Bool}
    (h : ∀ room, ofJson? room content = Json.granted finite content.depth room v) :
    fieldOf? room (.array [.ofString name, content])
      = Json.granted finite (Json.array [.ofString name, content]).depth room (name, v) := by
  have hdepth : Json.depthAll [.ofString name, content] = content.depth :=
    (Nat.zero_max _).trans (Nat.max_zero _)
  rw [Json.depth_array, hdepth]
  refine Json.granted_enter (fieldOf? · _) rfl (fun room => ?_) room
  rw [← Json.map_granted (fun v => (name, v)), ← h, fieldOf?, Json.toText?_ofString]
  cases ofJson? room content <;> rfl

end Cases

/-- A double is a leaf, whether it is written as a number or as null. -/
theorem toDouble?_doubleToJson {x : Float} (h : ReadBack [x]) (room : Nat) :
    (doubleToJson x).toDouble?
      = Json.granted (Double.isFinite x) (doubleToJson x).depth room x := by
  cases hfinite : Double.isFinite x with
  | true =>
      have hdepth : (doubleToJson x).depth = 0 := by
        unfold doubleToJson
        split <;> rfl
      rw [(doubleToJson_of_readsBack hfinite (h x (.head _) hfinite)).2, hdepth]
      rfl
  | false =>
      -- infinities are written as null, which is no double
      rw [doubleToJson_of_not_isFinite hfinite]
      rfl

mutual

/-- **A value is read back if it is finite and there is room for it, and otherwise not at all.** -/
theorem ofJson?_toJson (v : Value) (h : ReadBack v.doubles) (room : Nat) :
    ofJson? room v.toJson
      = Json.granted (v.doubles.all Double.isFinite) v.toJson.depth room v := by
  match v with
  | .null =>
      have hname := Json.toText?_ofString "Null"
      rw [Json.ofString] at hname
      rw [toJson, Json.ofString, ofJson?.eq_def]
      dsimp only
      rw [hname]
      rfl
  | .boolean b =>
      exact Json.granted_member "Boolean" (ofJson? · _) rfl
        (fun room => ofJson?_member room "Boolean" (.bool b)) room
  | .int64 n =>
      refine Json.granted_member "Int64" (ofJson? · _) rfl (fun room => ?_) room
      rw [toJson, ofJson?_member]
      rw [Json.toInt64?, Json.Number.toInt64?_ofInt]
      rfl
  | .float64 x =>
      refine Json.granted_member "Float64" (ofJson? · _) rfl (fun room => ?_) room
      rw [toJson, ofJson?_member]
      rw [toDouble?_doubleToJson h room, Json.map_granted, doubles, List.all_cons, List.all_nil,
        Bool.and_true]
      rfl
  | .utf8 s =>
      refine Json.granted_member "Utf8" (ofJson? · _) rfl (fun room => ?_) room
      rw [toJson, ofJson?_member]
      rw [Json.toText?_ofString]
      rfl
  | .tuple values =>
      refine Json.granted_member "Tuple" (ofJson? · _) rfl (fun room => ?_) room
      rw [toJson, ofJson?_member]
      rw [valuesOf?_array _ (mapM_toJsonAll values h), Json.map_granted]
      rfl
  | .struct fields =>
      refine Json.granted_member "Struct" (ofJson? · _) rfl (fun room => ?_) room
      rw [toJson, ofJson?_member]
      rw [structOf?_ofMembers _ _ (fun room => fieldsOf?_array room (mapM_toJsonFields fields h)),
        Json.map_granted]
      rfl

theorem mapM_toJsonAll (values : List Value) (h : ReadBack (doublesAll values)) (room : Nat) :
    (toJsonAll values).mapM (ofJson? room)
      = Json.granted ((doublesAll values).all Double.isFinite) (Json.depthAll (toJsonAll values))
          room values := by
  match values with
  | [] => rfl
  | v :: rest =>
      rw [toJsonAll, doublesAll, List.all_append]
      exact Json.mapM_cons_granted (ofJson?_toJson v h.left room)
        (mapM_toJsonAll rest h.right room)

theorem mapM_toJsonFields (fields : List (String × Value)) (h : ReadBack (doublesFields fields))
    (room : Nat) :
    (toJsonFields fields).mapM (fieldOf? room)
      = Json.granted ((doublesFields fields).all Double.isFinite)
          (Json.depthAll (toJsonFields fields)) room fields := by
  match fields with
  | [] => rfl
  | (name, v) :: rest =>
      rw [toJsonFields, doublesFields, List.all_append]
      exact Json.mapM_cons_granted (fieldOf?_array room name _ (ofJson?_toJson v h.left))
        (mapM_toJsonFields rest h.right room)

end

end Value

namespace Expr

/-! ## Expressions -/

mutual

/-- The doubles in the constants of an expression. -/
def doubles : Expr → List Float
  | .constant v => v.doubles
  | .argument _ => []
  | .member base _ => doubles base
  | .binary _ left right => doubles left ++ doubles right
  | .tuple items => doublesAll items

def doublesAll : List Expr → List Float
  | [] => []
  | e :: rest => doubles e ++ doublesAll rest

end

mutual

/-- The numbers of the arguments in an expression. -/
def indices : Expr → List Nat
  | .constant _ => []
  | .argument i => [i]
  | .member base _ => indices base
  | .binary _ left right => indices left ++ indices right
  | .tuple items => indicesAll items

def indicesAll : List Expr → List Nat
  | [] => []
  | e :: rest => indices e ++ indicesAll rest

end

mutual

/-- The stored form of an expression has a text that can be read. -/
theorem legible_toJson (e : Expr) (h : Value.ReadBack e.doubles) : e.toJson.Legible := by
  match e with
  | .constant v => exact Json.legible_member (Value.legible_toJson v h)
  | .argument i => exact Json.legible_member (Json.Number.legible_digitsOf _ _)
  | .member base name =>
      have hbase := legible_toJson base h
      exact Json.legible_member ⟨Json.closes_escape _, hbase, Json.closes_escape _,
        Json.legible_ofString name, trivial⟩
  | .binary op left right =>
      have hleft := legible_toJson left h.left
      have hright := legible_toJson right h.right
      exact Json.legible_member ⟨Json.closes_escape _, Json.legible_ofString op.name,
        Json.closes_escape _, hleft, Json.closes_escape _, hright, trivial⟩
  | .tuple items =>
      have hitems : Json.LegibleAll (toJsonAll items) := legible_toJsonAll items h
      exact Json.legible_member hitems

theorem legible_toJsonAll (items : List Expr) (h : Value.ReadBack (doublesAll items)) :
    Json.LegibleAll (toJsonAll items) := by
  match items with
  | [] => trivial
  | e :: rest => exact ⟨legible_toJson e h.left, legible_toJsonAll rest h.right⟩

end

/-! ### Reading expressions -/

section Cases

variable (room : Nat) (name : String) (content : Json)

/-- What an expression is depends on the name of its variant. -/
theorem ofJson?_member : ofJson? (room + 1) (.ofMembers [(name, content)]) =
    (match name with
    | "Constant" => (Value.ofJson? room content).map .constant
    | "Variable" => content.toWord?.map .argument
    | "Member" => memberOf? room content
    | "Binary" => binaryOf? room content
    | "Tuple" => (itemsOf? room content).map .tuple
    | _ => none) := by
  have hname := Json.toText?_ofString name
  rw [Json.ofString] at hname
  rw [Json.ofMembers, List.map_cons, List.map_nil, ofJson?, hname]
  rfl

theorem itemsOf?_array {items : List Json} {finite : Bool} {es : List Expr}
    (h : ∀ room, items.mapM (ofJson? room)
      = Json.granted finite (Json.depthAll items) room es) :
    itemsOf? room (.array items) = Json.granted finite (Json.array items).depth room es := by
  refine Json.granted_array (itemsOf? · _) rfl (fun room => ?_) room
  rw [itemsOf?, h]

theorem memberOf?_ofMembers {finite : Bool} {base : Expr}
    (h : ∀ room, ofJson? room content = Json.granted finite content.depth room base) :
    memberOf? room (.ofMembers [("base", content), ("name", .ofString name)])
      = Json.granted finite
          (Json.ofMembers [("base", content), ("name", .ofString name)]).depth room
          (.member base name) := by
  have hparts := Json.structure?_ofMembers [("base", content), ("name", .ofString name)] (by simp)
  have hdepth : Json.depthAll [content, .ofString name] = content.depth := Nat.max_zero _
  rw [Json.depth_ofMembers]
  simp only [List.map_cons, List.map_nil] at hparts ⊢
  rw [hdepth]
  refine Json.granted_enter (memberOf? · _) rfl (fun room => ?_) room
  have hread : memberOf? (room + 1) (.ofMembers [("base", content), ("name", .ofString name)])
      = (ofJson? room content).map (.member · name) := by
    rw [memberOf?, hparts]
    show (do return Expr.member (← ofJson? room content) (← (Json.ofString name).toText?)) = _
    rw [Json.toText?_ofString]
    cases ofJson? room content <;> rfl
  rw [hread, h, Json.map_granted]

theorem binaryOf?_ofMembers (op : BinaryOperator) {content' : Json} {finite finite' : Bool}
    {left right : Expr}
    (hleft : ∀ room, ofJson? room content = Json.granted finite content.depth room left)
    (hright : ∀ room, ofJson? room content' = Json.granted finite' content'.depth room right) :
    binaryOf? room
        (.ofMembers [("op", .ofString op.name), ("left", content), ("right", content')])
      = Json.granted (finite && finite')
          (Json.ofMembers
            [("op", .ofString op.name), ("left", content), ("right", content')]).depth room
          (.binary op left right) := by
  have hparts := Json.structure?_ofMembers
    [("op", .ofString op.name), ("left", content), ("right", content')] (by simp)
  have hdepth : Json.depthAll [.ofString op.name, content, content']
      = max content.depth content'.depth := by
    simp [Json.depthAll, Json.depth, Json.ofString]
  rw [Json.depth_ofMembers]
  simp only [List.map_cons, List.map_nil] at hparts ⊢
  rw [hdepth]
  refine Json.granted_enter (binaryOf? · _) rfl (fun room => ?_) room
  have hop : (Json.case? room (.ofString op.name)).bind BinaryOperator.ofName? = some op := by
    rw [Json.case?_ofString, Option.bind_some, BinaryOperator.ofName?_name]
  rw [binaryOf?, hparts]
  show (do
    let op ← (Json.case? room (.ofString op.name)).bind BinaryOperator.ofName?
    return Expr.binary op (← ofJson? room content) (← ofJson? room content')) = _
  rw [hop, hleft, hright]
  exact Json.bind_granted (Expr.binary op)

end Cases

mutual

/-- **An expression is read back if it is finite and there is room for it, and otherwise not at
all.** -/
theorem ofJson?_toJson (e : Expr) (h : Value.ReadBack e.doubles)
    (hindices : ∀ i ∈ e.indices, i < Nat.pow 2 64) (room : Nat) :
    ofJson? room e.toJson
      = Json.granted (e.doubles.all Double.isFinite) e.toJson.depth room e := by
  match e with
  | .constant v =>
      refine Json.granted_member "Constant" (ofJson? · _) rfl (fun room => ?_) room
      rw [toJson, ofJson?_member, Value.ofJson?_toJson v h, Json.map_granted]
      rfl
  | .argument i =>
      refine Json.granted_member "Variable" (ofJson? · _) rfl (fun room => ?_) room
      rw [toJson, ofJson?_member, Json.toWord?, Json.Number.toWord?_ofNat (hindices i (.head _))]
      rfl
  | .member base name =>
      refine Json.granted_member "Member" (ofJson? · _) rfl (fun room => ?_) room
      rw [toJson, ofJson?_member, memberOf?_ofMembers _ _ _ (ofJson?_toJson base h hindices)]
      rfl
  | .binary op left right =>
      have hleft := ofJson?_toJson left h.left (List.forall_mem_append.mp hindices).1
      have hright := ofJson?_toJson right h.right (List.forall_mem_append.mp hindices).2
      refine Json.granted_member "Binary" (ofJson? · _) rfl (fun room => ?_) room
      rw [toJson, ofJson?_member, binaryOf?_ofMembers _ _ op hleft hright, doubles, List.all_append]
      rfl
  | .tuple items =>
      refine Json.granted_member "Tuple" (ofJson? · _) rfl (fun room => ?_) room
      rw [toJson, ofJson?_member, itemsOf?_array _ (mapM_toJsonAll items h hindices),
        Json.map_granted]
      rfl

theorem mapM_toJsonAll (items : List Expr) (h : Value.ReadBack (doublesAll items))
    (hindices : ∀ i ∈ indicesAll items, i < Nat.pow 2 64) (room : Nat) :
    (toJsonAll items).mapM (ofJson? room)
      = Json.granted ((doublesAll items).all Double.isFinite) (Json.depthAll (toJsonAll items))
          room items := by
  match items with
  | [] => rfl
  | e :: rest =>
      have hfirst := ofJson?_toJson e h.left (List.forall_mem_append.mp hindices).1 room
      have hrest := mapM_toJsonAll rest h.right (List.forall_mem_append.mp hindices).2 room
      rw [toJsonAll, doublesAll, List.all_append]
      exact Json.mapM_cons_granted hfirst hrest

end

end Expr

/-! ## Tables -/

namespace Column

theorem legible_toJson (c : Column) : c.toJson.Legible :=
  ⟨Json.closes_escape _, Json.legible_ofString c.name, Json.closes_escape _,
    Json.legible_ofString c.datatype.name, trivial⟩

theorem depth_toJson (c : Column) : c.toJson.depth = 1 := rfl

theorem ofJson?_toJson (c : Column) (room : Nat) : ofJson? (room + 1) c.toJson = some c := by
  have hparts := Json.structure?_ofMembers
    [("name", .ofString c.name), ("datatype", .ofString c.datatype.name)] (by simp)
  have hdatatype : Json.toDataType? room (.ofString c.datatype.name) = some c.datatype := by
    rw [Json.toDataType?, Json.case?_ofString, Option.bind_some, DataType.ofName?_name]
  simp only [List.map_cons, List.map_nil] at hparts
  rw [toJson, ofJson?, hparts]
  show (do
    return Column.mk (← (Json.ofString c.name).toText?)
      (← Json.toDataType? room (.ofString c.datatype.name))) = _
  rw [Json.toText?_ofString, hdatatype]
  rfl

end Column

namespace Table

theorem schemaOfJson?_schemaToJson (schema : Option String) :
    schemaOfJson? (schemaToJson schema) = some schema := by
  cases schema with
  | none => rfl
  | some s =>
      show (Json.ofString s).toText?.map some = _
      rw [Json.toText?_ofString, Option.map_some]

theorem legible_toJson (t : Table) : t.toJson.Legible := by
  have hschema : (schemaToJson t.schema).Legible := by
    cases t.schema with
    | none => trivial
    | some s => exact Json.legible_ofString s
  have hcolumns : Json.LegibleAll (t.columns.map Column.toJson) := by
    induction t.columns with
    | nil => trivial
    | cons c rest ih => exact ⟨c.legible_toJson, ih⟩
  exact ⟨Json.closes_escape _, hschema, Json.closes_escape _, Json.legible_ofString t.name,
    Json.closes_escape _, hcolumns, trivial⟩

/-- A table nests no deeper than the list of its columns. -/
theorem depth_toJson_le (t : Table) : t.toJson.depth ≤ 3 := by
  have hschema : (schemaToJson t.schema).depth = 0 := by cases t.schema <;> rfl
  have hcolumns : Json.depthAll (t.columns.map Column.toJson) ≤ 1 := by
    induction t.columns with
    | nil => exact Nat.zero_le _
    | cons c rest ih =>
        rw [List.map_cons, Json.depthAll, Column.depth_toJson]
        exact Nat.max_le.mpr ⟨Nat.le_refl _, ih⟩
  rw [toJson, Json.depth_ofMembers]
  simp only [List.map_cons, List.map_nil, Json.depthAll, hschema, Json.ofString, Json.depth]
  omega

theorem parts?_toJson (t : Table) :
    parts? t.toJson = some (t.schema, .ofString t.name, .array (t.columns.map Column.toJson)) := by
  have hparts := Json.select?_ofMembers [("schema", schemaToJson t.schema),
    ("name", .ofString t.name), ("columns", .array (t.columns.map Column.toJson))] (by simp)
  simp only [List.map_cons, List.map_nil] at hparts
  rw [toJson, Json.ofMembers]
  simp only [List.map_cons, List.map_nil]
  rw [parts?, hparts]
  show (do return (← schemaOfJson? (schemaToJson t.schema), _, _)) = _
  rw [schemaOfJson?_schemaToJson]
  rfl

/-- **Every table is read back.** -/
theorem ofJson?_toJson (t : Table) (room : Nat) : ofJson? (room + 3) t.toJson = some t := by
  have hcolumns : (t.columns.map Column.toJson).mapM (Column.ofJson? (room + 1))
      = some t.columns := by
    induction t.columns with
    | nil => rfl
    | cons c rest ih =>
        rw [List.map_cons, List.mapM_cons, Column.ofJson?_toJson, ih]
        rfl
  rw [ofJson?, parts?_toJson]
  show (do
    return Table.mk t.schema (← (Json.ofString t.name).toText?)
      (← (t.columns.map Column.toJson).mapM (Column.ofJson? (room + 1)))) = _
  rw [Json.toText?_ofString, hcolumns]
  rfl

end Table

/-! ## Texts -/

theorem Json.required_granted {α : Type} (finite : Bool) (depth : Nat) (a : α) :
    Json.required (Json.granted finite depth Json.limit a)
      = if finite ∧ depth < 128 then .ok a else .error .json := by
  have hlimit : depth ≤ Json.limit ↔ depth < 128 := Nat.lt_succ_iff.symm
  by_cases h : finite = true ∧ depth < 128
  · rw [if_pos h, Json.granted, if_pos (by simpa [hlimit] using h)]
    rfl
  · rw [if_neg h, Json.granted, if_neg (by simpa [hlimit] using h)]
    rfl

/-- The text of a stored form is read as that stored form. -/
theorem ofText?_stored {j : Json} (h : j.Legible) :
    Json.ofText? (String.ofList j.text).toList = some j := by
  rw [String.toList_ofList, Json.ofText?_text h]

/-- **What is stored is read back.** The text of a value or an expression is the text of a tree. It
is read as what was stored if all doubles are finite and the tree nests fewer than 128 deep;
otherwise reading it is an error. Tables hold no doubles and never nest that deep. -/
theorem stored_reads_back :
    (∀ v : Value, Value.ReadBack v.doubles →
      Json.ofText? v.stored.toList = some v.toJson ∧
        Value.ofStored v.stored
          = if v.doubles.all Double.isFinite ∧ v.toJson.depth < 128 then .ok v
            else .error .json) ∧
    (∀ e : Expr, Value.ReadBack e.doubles → (∀ i ∈ e.indices, i < Nat.pow 2 64) →
      Json.ofText? e.stored.toList = some e.toJson ∧
        Expr.ofStored e.stored
          = if e.doubles.all Double.isFinite ∧ e.toJson.depth < 128 then .ok e
            else .error .json) ∧
    ∀ t : Table,
      Json.ofText? t.stored.toList = some t.toJson ∧ t.toJson.depth < 128 ∧
        Table.ofStored t.stored = .ok t := by
  refine ⟨fun v h => ?_, fun e h hindices => ?_, fun t => ?_⟩
  · have htext : Json.ofText? v.stored.toList = some v.toJson :=
      ofText?_stored (v.legible_toJson h)
    refine ⟨htext, ?_⟩
    rw [Value.ofStored, Value.ofStored?, htext, ← Json.required_granted,
      ← Value.ofJson?_toJson v h]
    rfl
  · have htext : Json.ofText? e.stored.toList = some e.toJson :=
      ofText?_stored (e.legible_toJson h)
    refine ⟨htext, ?_⟩
    rw [Expr.ofStored, Expr.ofStored?, htext, ← Json.required_granted,
      ← Expr.ofJson?_toJson e h hindices]
    rfl
  · have htext : Json.ofText? t.stored.toList = some t.toJson := ofText?_stored t.legible_toJson
    refine ⟨htext, Nat.lt_of_le_of_lt t.depth_toJson_le (by decide), ?_⟩
    rw [Table.ofStored, Table.ofStored?, htext]
    exact congrArg Json.required (t.ofJson?_toJson 124)

/-- The last argument is told apart from all others and one zero from the other, but an infinity is
not read. -/
theorem stored_reads_back_zeros :
    Expr.ofStored (Expr.binary .eq (.argument 18446744073709551615)
        (.constant (.tuple [.float64 0.0, .float64 (-0.0), .int64 0]))).stored
        = .ok (.binary .eq (.argument 18446744073709551615)
          (.constant (.tuple [.float64 0.0, .float64 (-0.0), .int64 0]))) ∧
      Value.ofStored (Value.tuple [.float64 1.5, .float64 (1.0 / 0.0)]).stored
        = .error .json := by
  have hzeros := (stored_reads_back.2.1 (.binary .eq (.argument 18446744073709551615)
    (.constant (.tuple [.float64 0.0, .float64 (-0.0), .int64 0])))
    (by decide +kernel) (by decide +kernel)).2
  have hinfinity := (stored_reads_back.1
    (.tuple [.float64 1.5, .float64 (1.0 / 0.0)]) (by decide +kernel)).2
  rw [if_pos (by decide +kernel)] at hzeros
  rw [if_neg (by decide +kernel)] at hinfinity
  exact ⟨hzeros, hinfinity⟩

end RowQuery
