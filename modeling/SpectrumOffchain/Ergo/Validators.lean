import SpectrumOffchain.Ergo.Box

/-!
# Validators

The scripts that the boxes of a pool are guarded by (`validators.rs`).
-/

namespace SpectrumOffchain

def base16Digit (c : Char) : ℕ :=
  if c.isDigit then c.toNat - '0'.toNat else c.toNat - 'a'.toNat + 10

/-- `base16::decode`, on pairs of lower case digits. -/
def base16Decode : List Char → Bytes
  | high :: low :: rest => .ofNat (16 * base16Digit high + base16Digit low) :: base16Decode rest
  | _ => []

/-- A constant of the source, which is a single string there. -/
def base16Constant (lines : List String) : Bytes := base16Decode (lines.flatMap String.toList)

def poolValidatorBytes : List String :=
  ["19c0062804000400040204020404040404060406040804080404040204000400040204020400040a050005000404",
    "040204020e200508f3623d4b2be3bdb9737b3e65644f011167eefb830d9965205f022ceda40d0400040205000402",
    "040204060500050005feffffffffffffffff01050005000402060101050005000100d81fd601b2a5730000d602db",
    "63087201d603db6308a7d604b27203730100d605e4c6a70410d606e4c6a70505d607e4c6a70605d608b272027302",
    "00d609b27203730300d60ab27202730400d60bb27203730500d60cb27202730600d60db27203730700d60e8c720d",
    "01d60fb27202730800d610b27203730900d6118c721001d6128c720b02d613998c720a027212d6148c720902d615",
    "b27205730a00d6169a99a37215730bd617b27205730c00d6189d72167217d61995919e72167217730d9a7218730e",
    "7218d61ab27205730f00d61b7e721a05d61c9d7206721bd61d998c720c028c720d02d61e8c721002d61f998c720f",
    "02721ed1ededededed93b272027310007204ededed93e4c672010410720593e4c672010505720693e4c672010605",
    "7207928cc77201018cc7a70193c27201c2a7ededed938c7208018c720901938c720a018c720b01938c720c01720e",
    "938c720f01721193b172027311959172137312d802d6209c721399721ba273137e721905d621b2a5731400ededed",
    "929a7e9972067214067e7207067e9c7e9995907219721a72199a721a7315731605721c06937213f0721d937220f0",
    "721fedededed93cbc272217317938602720e7213b2db6308722173180093860272117220b2db63087221731900e6",
    "c67221060893e4c67221070e8c720401958f7213731aededec929a7e9972067214067e7207067e9c7e9995907219",
    "721a72199a721a731b731c05721c0692a39a9a72159c721a7217b27205731d0093721df0721392721f9591721972",
    "1a731e9c721d99721ba2731f7e721905d804d620e4c672010704d62199721a7220d6227e722105d6239999732072",
    "1e9c7212722295ed917223732191721f7322edededed9072209972197323909972149c7222721c9a721c7207907e",
    "f0998c7208027214069d9c99997e7214069d9c7e7206067e7221067e721a0673247e721f067e7223069372137325",
    "93721d73267327"]

def bundleValidatorBytes : List String :=
  ["19bc04210400040004040404040004020601010601000400050004020404040205feffffffffffffffff01040804",
    "0004020502040405020402040004000101010005000404040004060404040205fcffffffffffffffff010100d80d",
    "d601b2a5730000d602db63087201d603e4c6a7070ed604b2a4730100d605db63087204d6068cb2720573020002d6",
    "07998cb27202730300027206d608e4c6a70608d609db6308a7d60ab27209730400d60bb27205730500d60c7306d6",
    "0d7307d1ed938cb27202730800017203959372077309d80cd60eb2a5e4e3000400d60fb2a5e4e3010400d610b2e4",
    "c672040410730a00d611c672010804d61299721095e67211e47211e4c672010704d6138cb27209730b0001d614db",
    "6308720fd615b27209730c00d6168c721502d6177e721205d6189972169c72178c720a02d6199d9c99997e8c720b",
    "02069d9c7ee4c672040505067e7212067e721006720c7e7218067e9999730d8cb27205730e00029c7206721706ed",
    "ed93c2720ed07208edededed93e4c6720f0608720893e4c6720f070e720393c2720fc2a795917212730fd801d61a",
    "b27214731000eded93860272137311b27214731200938c721a018c721501939972168c721a027218938602721373",
    "13b2721473140093b27214731500720a95917219720dd801d61ab2db6308720e731600ed938c721a018c720b0192",
    "7e8c721a0206997219720c95937219720d73177318958f7207731993b2db6308b2a4731a00731b0086029593b172",
    "09731c8cb27209731d00018cb27209731e0001731f7320"]

def depositTemplateBytes : List String :=
  ["d803d601b2a4730000d6027301d6037302eb027303d195ed92b1a4730493b1db630872017305d805d604db630872",
    "01d605b2a5730600d606c57201d607b2a5730700d6088cb2db6308a773080002ededed938cb27204730900017202",
    "ed93c2720572039386027206730ab2db63087205730b00ededededed93cbc27207730c93d0e4c672070608720393",
    "e4c67207070e72029386028cb27204730d00017208b2db63087207730e009386028cb27204730f00019c72087e73",
    "1005b2db6308720773110093860272067312b2db6308720773130090b0ada5d90109639593c272097314c1720973",
    "157316d90109599a8c7209018c72090273177318"]

def redeemTemplateBytes : List String :=
  ["eb027300d195ed92b1a4730193b1db6308b2a47302007303d802d601b2a5730400d60290b0ada5d90102639593c2",
    "72027305c1720273067307d90102599a8c7202018c7202027308ededed93c272017309938602730a730bb2db6308",
    "7201730c0072027202730d"]

def poolValidator : ErgoTree := ⟨base16Constant poolValidatorBytes⟩

def bundleValidator : ErgoTree := ⟨base16Constant bundleValidatorBytes⟩

def depositTemplate : Bytes := base16Constant depositTemplateBytes

def redeemTemplate : Bytes := base16Constant redeemTemplateBytes

end SpectrumOffchain
