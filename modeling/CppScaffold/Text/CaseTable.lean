import CppScaffold.Text.Table

/-!
# Case mappings beyond ASCII

An entry `(first, last, step, shift)` maps every `step`-th code point from `first` to `last` to the
one `shift` places away. The few characters whose image has several characters are listed apart.
-/

namespace CppScaffold.Text

/-- The entries that are given by four numbers each: how far the first code point lies behind that of the entry
before, how many more there are, the step, and the shift, doubled and, if it leads back, one less. -/
def shiftsFrom (first : Nat) : List Nat → List (Nat × Nat × Nat × Int)
  | gap :: more :: step :: shift :: rest =>
    (first + gap, first + gap + more * step, step, if shift % 2 == 0 then shift / 2 else -((shift + 1) / 2)) ::
      shiftsFrom (first + gap) rest
  | _ => []

def upperShifts : List (Nat × Nat × Nat × Int) := shiftsFrom 0 (rows [
  0x10468d101110428b103110611041105121368e1017a991051227d126a1a1277122279f100e127a22eb1077f160b7f16a3d69fa105ea,
  0x31101b12092d123a4110231011103a120925ba107912723101110231011102310111060e9102110411051214110311051107122348c,
  0x10a9dca1025be1026aadca1011be1046badca1015ae1023ae1031be1123be1013ce1014f8ad1010f8ad1016f8ad1019124511036f9ad11,
  0x4a9dca1043ee10168adca1023ee10369f9d10093de1031de1012ff9d1025ce10328adca1016df9d10109adca1015ce1011ce10209adca10,
  0x10197f10915f101a7f10a4199121399101e48c12411061214d0da107ca4c8dca1012d8dca10395ee10659a1021ee11119a1013ee101,
  0x22b2d120a1a7ba1790c7f17b5e110311037fa1027cb101691017ba1013da107a12392791013d91015b91041e91013f91035f91117f9,
  0x17ea8b10158b8b10238b8b11178b8b1011bb8b1013bb8b1009ac79153fb908eb9125d08eb912d7ddd7b915c0aa127d25b10591267e1,
  0x17790a231a0a150a0a170a0a170a0a150a0a177b9127d65e9102ba122993e90e9a9a101a49fe9104098a9a101eb48e99a1011998b10,
  0x7b917d0cdb3e11b49d91104a7b1792c7e101dd691050a110a0a112a199cb10690a114e4fb1120cb11208c11209b1144da1324aa110a0a,
  0x789126b0a1262ca1259089126a4accf7facb1067facb107c7facb15c5911071213d9121e391103110391222799ad1015a9ad1041101e,
  0x297fa79913c0ea79917c7cba7f11b1af9d7befaa17995b7fcb105bd91107b1216110191213a1276b121930c91031215110591245121,
  0x38911c28bdf7f17b0cead7f17b088e7f912e58cb5991109599160a599169495991])

def upperExpansions : List (Nat × List Nat) := [
  (223, [83, 83]), (329, [700, 78]), (496, [74, 780]), (912, [921, 776, 769]), (944, [933, 776, 769]),
  (1415, [1333, 1362]), (7830, [72, 817]), (7831, [84, 776]), (7832, [87, 778]), (7833, [89, 778]), (7834, [65, 702]),
  (8016, [933, 787]), (8018, [933, 787, 768]), (8020, [933, 787, 769]), (8022, [933, 787, 834]), (8064, [7944, 921]),
  (8065, [7945, 921]), (8066, [7946, 921]), (8067, [7947, 921]), (8068, [7948, 921]), (8069, [7949, 921]),
  (8070, [7950, 921]), (8071, [7951, 921]), (8072, [7944, 921]), (8073, [7945, 921]), (8074, [7946, 921]),
  (8075, [7947, 921]), (8076, [7948, 921]), (8077, [7949, 921]), (8078, [7950, 921]), (8079, [7951, 921]),
  (8080, [7976, 921]), (8081, [7977, 921]), (8082, [7978, 921]), (8083, [7979, 921]), (8084, [7980, 921]),
  (8085, [7981, 921]), (8086, [7982, 921]), (8087, [7983, 921]), (8088, [7976, 921]), (8089, [7977, 921]),
  (8090, [7978, 921]), (8091, [7979, 921]), (8092, [7980, 921]), (8093, [7981, 921]), (8094, [7982, 921]),
  (8095, [7983, 921]), (8096, [8040, 921]), (8097, [8041, 921]), (8098, [8042, 921]), (8099, [8043, 921]),
  (8100, [8044, 921]), (8101, [8045, 921]), (8102, [8046, 921]), (8103, [8047, 921]), (8104, [8040, 921]),
  (8105, [8041, 921]), (8106, [8042, 921]), (8107, [8043, 921]), (8108, [8044, 921]), (8109, [8045, 921]),
  (8110, [8046, 921]), (8111, [8047, 921]), (8114, [8122, 921]), (8115, [913, 921]), (8116, [902, 921]),
  (8118, [913, 834]), (8119, [913, 834, 921]), (8124, [913, 921]), (8130, [8138, 921]), (8131, [919, 921]),
  (8132, [905, 921]), (8134, [919, 834]), (8135, [919, 834, 921]), (8140, [919, 921]), (8146, [921, 776, 768]),
  (8147, [921, 776, 769]), (8150, [921, 834]), (8151, [921, 776, 834]), (8162, [933, 776, 768]),
  (8163, [933, 776, 769]), (8164, [929, 787]), (8166, [933, 834]), (8167, [933, 776, 834]), (8178, [8186, 921]),
  (8179, [937, 921]), (8180, [911, 921]), (8182, [937, 834]), (8183, [937, 834, 921]), (8188, [937, 921]),
  (64256, [70, 70]), (64257, [70, 73]), (64258, [70, 76]), (64259, [70, 70, 73]), (64260, [70, 70, 76]),
  (64261, [83, 84]), (64262, [83, 84]), (64275, [1348, 1350]), (64276, [1348, 1333]), (64277, [1348, 1339]),
  (64278, [1358, 1350]), (64279, [1348, 1341])]

def lowerShifts : List (Nat × Nat × Nat × Int) := shiftsFrom 0 (rows [
  0x2be10221016ae1014ae1016ba10321022be11221014be10422114ce100922211eb106d226a1a22772222e227a0d089160b08916a08b,
  0x210141009210421016ee10422122ee11221014ee10221034ee10221014ee10622214de1022de1016ce10421012ce1016ce1026be101,
  0x10129a10158e10221030a9ad10158d10221016a9ad100b2209238c100d223a17d910118b10422114103a22093a22091410221014102,
  0x7b0a0ca179338c12321015910221037e9104b2239190a104d0891092a08910a36f911208a1042991224991070db101921062212dc224169a,
  0x25d7fdb912d0cac0a150a90cefaa17993ab908bcb10608bcb107c08bcb15c7ddd0c915c1c9227d7922616b106e222b2d220a0a90891,
  0x1a1023aa11279110a79170a79170a79170c79177979231a79150a79170a79170a79150a79170d9227d25fddb106ba2229938d7fdb91,
  0x1b3ec92103c0c1796d0f10739a8c1015fd8c1041fadb102dc1a1023fb1127fb1149591027bb11279116978b1127911491a1043da1349,
  0x2213d9221e25f9ad1119210321023f8ad1015f8ad1011ff9d1017e8ad106222359f9d10139fe91015df9d1022100c90c917d29db4e1,
  0x18adca1015aadca1015badca10178adca104a221962213799dca102210592241788a9a104221789226b0a2262ca2259089226a69dcf2107,
  0x7c7bba08911b4dcbd2107b22162101922117d9a9a10158adca1017b9100a227108db1011d8dca1013a9dca1013c8dca10278adca101,
  0x48911c08bdf08917b0cead08917b0c8e08a12e4dbb6991109699160a6991694969912908b0a913c0ea0a91])

def lowerExpansions : List (Nat × List Nat) := [
  (304, [105, 775])]

/-- The cased characters, after which a capital sigma can end a word. -/
def casedRuns : List Nat := rows [
  0x3d71928ac626a90ca9323d215116c7acd1d196c16ca0939a13a914a1113116113322408b3b10ab44138b17b17a51412917d2b62b189,
  0x6acb4e1ec9230c1a145542146141111116531129214158c71355946243713311715e27b1111111092626c2626ac5c92c1597f4d08932,
  0x1394e94c44c0c90a95caa2b62b198a549708dfc0a971953d5ec91323b5111253f1437a169968a4b2a6d2accf15116c4923467c924f9,
  0x11b17b11b11b24ad1731151414b17109241189171114914222122178915a908eae0890cdad0895ded3e593e38bb2171791391217179,
  0x2b62b62b4dfb4891cfc4a1294ecb0911b17b11b17b11b17b]

/-- The characters that are passed over when looking for the neighbours of a capital sigma. -/
def caseIgnorableRuns : List Nat := rows [
  0x393b93b6b1111c41291095c910a5a2913c11392963914d112121115d1e15179b73fb11219142408b7ef2214111417891113c1391617c,
  0x411212f1166a24a14215411f2391326b1332242411f2212b24a1094412f17915922973140941117e2f1d0962714d33d0b0b1214392f,
  0x1113b22996111919212c919397212b91137109915b24a1094421f24b24a25161212f15b2392741353117e1312e14915f16b23927109,
  0x192436e912c218913e55d151339210971208926b26b25b32ee930c9916b9179162215940a3421b22216146c91194c13952151697e11,
  0x5fe5c92c1597f2e2316147159132a9608922092f31132110f312240c249190d15115110e41e7b0917c1229609211117112f1223bb361,
  0x2c9169c62cba16acfe35b965b9155344c15af17d0c0c917915f931e9239ed1c3e590a1591129151e5212129209549259359359339311,
  0x125223113e13913c1091492222628925a11a224210e36d391b096c1592a2b27aa1521b14131092337c937a16992c6920a944b112914,
  0x1912d16588a55aa12cb1188935a138925d17d1113c139161711da1212c0a49130a5f891a3aa10ecfc141211f931954c9112526913b1,
  0x25a09310ca16211237b912429194e24916f09154c32e12914122241e3292211d796e13f941e391ba238e45f8925ca1430d452136899,
  0x191094260d290c142240aa1411208c211938c514235c911621112d92112095a923b212646db21241164a917a11320938b5375c1321f,
  0x4b9994126bae217143988c2120891a7f1398a41973f57eabb193fca923bd111320991171211362f92121726a2a9116176ae21596d326,
  0x107db08a0c96b1188e88b57dad095d970cfa45f10ed6958c5121721a170ada79156a1691092e47e3feb34aa46b720a1930c897a26d]

end CppScaffold.Text
