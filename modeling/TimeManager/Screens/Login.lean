import TimeManager.Managers.Data

/-! # The Login Form

    `LoginMainView`: what the user types at login.  The form keeps it, for
    nothing empties the fields once the request is sent. -/

namespace TimeManager

/-- The texts of the two fields, and the switch. -/
structure LoginMainView where
  emailTextField : String
  passwordTextField : String
  registerSwitch : Bool
deriving DecidableEq, Repr

namespace LoginMainView

/-- The form of the storyboard. -/
def fromStoryboard : LoginMainView where
  emailTextField := ""
  passwordTextField := ""
  registerSwitch := false

def setData (data : LoginData) : LoginMainView where
  emailTextField := data.mail
  passwordTextField := data.password
  registerSwitch := data.doRegister

def getData (view : LoginMainView) : LoginData where
  mail := view.emailTextField
  password := view.passwordTextField
  doRegister := view.registerSwitch

/-- What is filled in is what is read. -/
@[simp] theorem getData_setData (data : LoginData) : (setData data).getData = data := rfl

end LoginMainView

end TimeManager
