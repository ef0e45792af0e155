/-!
What the firmware does when a matrix position is pressed, and the expressions it is written as.
-/

namespace Keyplan.Firmware

/-- When the hold action of a key is chosen. -/
inductive HoldTapConfig where
  | permissiveHold
  | holdOnOtherKeyPress
  deriving DecidableEq, Repr

namespace HoldTapConfig

def name : HoldTapConfig → String
  | permissiveHold => "PermissiveHold"
  | holdOnOtherKeyPress => "HoldOnOtherKeyPress"

def ofCode : Int → Except String HoldTapConfig
  | 0 => .ok permissiveHold
  | 1 => .ok holdOnOtherKeyPress
  | n => .error s!"invalid hold-tap config: {n}"

/-- What is shown for a number in place of the name of a configuration. -/
def shownCode (n : Int) : String :=
  match ofCode n with
  | .ok config => config.name
  | .error reason => "%!v(PANIC=String method: " ++ reason ++ ")"

end HoldTapConfig

inductive Action where
  | keyCode (code : String)
  /-- Several key codes at once; shifted characters need it. -/
  | keyCodes (codes : List String)
  /-- Activates a layer while the key is held. -/
  | layer (index : Int)
  | holdTap (timeout : Int) (hold tap : Action) (config : HoldTapConfig) (interval : Int)
  | noOp
  /-- An expression taken over as it is. -/
  | custom (text : String)
  deriving DecidableEq, Repr

namespace Action

def actionPath : String := "::keyberon::action::Action::"

def keyCodePath : String := "::keyberon::key_code::KeyCode::"

/-- The expression of a hold-tap action; `config` is the name of its configuration. -/
def renderHoldTap (timeout : Int) (hold tap config : String) (interval : Int) : String :=
  actionPath ++ "HoldTap(\n"
    ++ "    &::keyberon::action::HoldTapAction \x7b\n"
    ++ s!"        timeout: {timeout},\n"
    ++ "        hold: " ++ hold ++ ",\n"
    ++ "        tap: " ++ tap ++ ",\n"
    ++ "        config: ::keyberon::action::HoldTapConfig::" ++ config ++ ",\n"
    ++ s!"        tap_hold_interval: {interval},\n"
    ++ "    \x7d)"

def render : Action → String
  | keyCode code => actionPath ++ "KeyCode(" ++ keyCodePath ++ code ++ ")"
  | keyCodes codes =>
    actionPath ++ "MultipleKeyCodes(&["
      ++ ", ".intercalate (codes.map fun code => keyCodePath ++ code) ++ "].as_slice())"
  | layer index => actionPath ++ s!"Layer({index})"
  | holdTap timeout hold tap config interval =>
    renderHoldTap timeout hold.render tap.render config.name interval
  | noOp => actionPath ++ "NoOp"
  | custom text => text

end Action

end Keyplan.Firmware
