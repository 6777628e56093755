import Calculator.Ewe.Assembly
import Calculator.Expr

/-!
# Compiling expressions

The code of an expression leaves its value in the cell that `sp` points to and
`sp` as it was. An operand is computed in a frame above the cells its parent
still needs: one cell up for a negation or a store, three cells up for an
operator, which keeps its result and its two operands below.
-/

namespace Calculator.Ewe

def reg (r : Register) : Operand Register := .place (.cell r)

/-- The cell `k` places above `sp`. -/
def slot (k : Int64) : Place Register := .indirect .sp k

/-- `r := x` -/
def set (r : Register) (x : Operand Register) : Line := .code (.move (.cell r) x)

/-- `r := r op x` -/
def update (r : Register) (op : Op) (x : Register) : Line :=
  .code (.compute (.cell r) (reg r) op (reg x))

/-- Read a slot into a register. -/
def fetch (r : Register) (k : Int64) : Line := set r (.place (slot k))

/-- Write `tmp` into a slot. -/
def put (k : Int64) : Line := .code (.move (slot k) (reg .tmp))

/-- The name of an operator in comments. -/
def blockName : Op → String
  | .add => "Add"
  | .sub => "Sub"
  | .mul => "Mul"
  | .div => "Div"
  | .mod => "Mod"

/-- The code of `e`, followed by `after`. -/
def emit (e : Expr) (after : List Line) : List Line :=
  match e with
  | .number v =>
    .comment "Start Number" ::
    set .tmp (.literal v) ::
    put 0 ::
    .comment "End Number" :: after
  | .memory =>
    .comment "Start Recall" ::
    .code (.move (slot 0) (reg .mem)) ::
    .comment "End Recall" :: after
  | .negate e =>
    .comment "Start Negate" ::
    update .sp .add .uno ::
    emit e (
      update .sp .sub .uno ::
      fetch .tmp 1 ::
      .code (.compute (.cell .tmp) (reg .negateNum) .sub (reg .tmp)) ::
      put 0 ::
      .comment "End Negate" :: after)
  | .store e =>
    .comment "Start Store" ::
    update .sp .add .uno ::
    emit e (
      update .sp .sub .uno ::
      fetch .tmp 1 ::
      put 0 ::
      set .mem (reg .tmp) ::
      .comment "End Store" :: after)
  | .binary op l r =>
    .comment ("Start " ++ blockName op) ::
    update .sp .add .tres ::
    .comment "Left operand" ::
    emit l (
      update .sp .sub .tres ::
      fetch .tmp 3 ::
      put 1 ::
      update .sp .add .tres ::
      .comment "Right operand" ::
      emit r (
        update .sp .sub .tres ::
        fetch .tmp 3 ::
        put 2 ::
        fetch .tmp 1 ::
        fetch .tmp2 2 ::
        update .tmp op .tmp2 ::
        put 0 ::
        .comment ("End " ++ blockName op) :: after))

/-- The code of `e` alone. -/
def block (e : Expr) : List Line := emit e []

/-- Set the registers up, and let the stack start above the first free cell. -/
def prologue : List Line :=
  [.comment "The result is:",
   .comment "Start root tree",
   .labelled "main" (.move (.cell .sp) (.literal 7)),
   set .negateNum (.literal 0),
   set .uno (.literal 1),
   set .tres (.literal 3),
   update .sp .add .uno]

/-- Print the value and stop. The definitions of the registers come last. -/
def epilogue : List Line :=
  [.comment "End call subtree root",
   update .sp .sub .uno,
   fetch .tmp 1,
   .code (.writeInt (reg .tmp)),
   .code .halt] ++ Register.all.map .equ

/-- A complete program that prints the value of `e`. -/
def program (e : Expr) : List Line := prologue ++ emit e epilogue

theorem emit_eq (e : Expr) (after : List Line) : emit e after = block e ++ after := by
  rw [block]
  induction e generalizing after with
  | number v => rfl
  | memory => rfl
  | negate e ih =>
    simp only [emit]
    rw [ih, ih (_ :: _)]
    simp
  | store e ih =>
    simp only [emit]
    rw [ih, ih (_ :: _)]
    simp
  | binary op l r ihl ihr =>
    simp only [emit]
    rw [ihl, ihr, ihl (_ :: _), ihr (_ :: _)]
    simp

end Calculator.Ewe
