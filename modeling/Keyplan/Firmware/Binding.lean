import Keyplan.Firmware.Action
import Keyplan.Keymap

/-!
Turning the keys of a description into firmware actions.
-/

namespace Keyplan.Firmware

/-- What binding a key depends on. -/
structure Binder where
  keymap : Keymap
  timeout : Int
  interval : Int

namespace Binder

def defaultTimeout : Int := 400

def defaultInterval : Int := 200

/-- The binder of a keymap; its numeric options have to be numbers. -/
def ofKeymap (m : Keymap) : Except Diagnostic Binder := do
  let timeout ← m.options.number .firmware "hold_tap_timeout" defaultTimeout
  let interval ← m.options.number .firmware "hold_tap_interval" defaultInterval
  return { keymap := m, timeout := timeout, interval := interval }

def charAction (k : CharKey) : Action :=
  if k.shifted then .keyCodes ["LShift", k.code] else .keyCode k.code

def nameAction : Keymap.KeyMeaning → Action
  | .custom output => .custom output.text
  | .named key => if key.isNoOp then .noOp else .keyCode key.code

def bindPlain (b : Binder) (k : PlainKey) : Except Diagnostic Action :=
  match k.meaning with
  | .layer name => do
    let i ← b.keymap.resolveLayer name k.span
    return .layer i
  | .char c _ => do
    let key ← Keymap.resolveChar c k.span
    return charAction key
  | .named name => do
    let meaning ← b.keymap.resolveName .firmware name k.span
    return nameAction meaning

def configOf : HoldStyle → HoldTapConfig
  | .permissive => .permissiveHold
  | .onOtherKeyPress => .holdOnOtherKeyPress

def bind (b : Binder) (k : Key) : Except Diagnostic Action := do
  let tap ← b.bindPlain k.tap
  match k.hold with
  | none => return tap
  | some h =>
    let hold ← b.bindPlain h.key
    let timeout := if h.timeout = 0 then b.timeout else h.timeout
    return .holdTap timeout hold tap (configOf h.style) b.interval

end Binder

end Keyplan.Firmware
